import Highlight.Proofs.Failure
import Highlight.Proofs.Scan.Hits

/-!
How hits lie in a text. The context of a match ends at the end of its first group, brought to the
nearest place in the match (`Hit.contextEnds_contextEndOf`), and a hit divides the text into what
stands before it, its context, its token and the rest (`Hit.Fits.exists_divides`). Of the search
this takes only that matches lie where they were sought, with all ends between characters, so that
it holds for the hits of each engine that promises as much (`Regex.Engine.Lawful`).
-/

namespace Highlight

namespace Hit

/-- Where the context of a match ends: at its start if there is no context to tell, otherwise at
the place in the match that is nearest to the end of the first group. The group may have closed
before the match, looking behind, or beyond it, looking ahead. -/
inductive ContextEnds (lookbehind : Bool) (m : Regex.Match) : (bytes : Nat) → Prop
  | plain (noContext : lookbehind = false) : ContextEnds lookbehind m m.start
  | absent (noGroup : m.groupEnd? 1 = none) : ContextEnds lookbehind m m.start
  | before {groupEnd : Nat} (context : lookbehind = true) (group : m.groupEnd? 1 = some groupEnd)
      (lt_start : groupEnd < m.start) : ContextEnds lookbehind m m.start
  | within {groupEnd : Nat} (context : lookbehind = true) (group : m.groupEnd? 1 = some groupEnd)
      (start_le : m.start ≤ groupEnd) (le_stop : groupEnd ≤ m.stop) :
      ContextEnds lookbehind m groupEnd
  | beyond {groupEnd : Nat} (context : lookbehind = true) (group : m.groupEnd? 1 = some groupEnd)
      (stop_lt : m.stop < groupEnd) : ContextEnds lookbehind m m.stop

theorem contextEndOf_eq_start {lookbehind : Bool} {m : Regex.Match}
    (h : lookbehind = false ∨ m.groupEnd? 1 = none) : contextEndOf lookbehind m = m.start := by
  unfold contextEndOf
  split
  next groupEnd hgroup => simp [hgroup] at h
  next => rfl

theorem contextEndOf_eq_clamp {m : Regex.Match} {groupEnd : Nat}
    (h : m.groupEnd? 1 = some groupEnd) :
    contextEndOf true m = max m.start (min groupEnd m.stop) := by
  simp only [contextEndOf, h]

theorem ContextEnds.eq_contextEndOf {lookbehind : Bool} {m : Regex.Match} {bytes : Nat}
    (h : ContextEnds lookbehind m bytes) : bytes = contextEndOf lookbehind m := by
  have hle := m.start_le_stop
  cases h with
  | plain noContext => rw [contextEndOf_eq_start (.inl noContext)]
  | absent noGroup => rw [contextEndOf_eq_start (.inr noGroup)]
  | before context group lt_start =>
      rw [context, contextEndOf_eq_clamp group]
      omega
  | within context group start_le le_stop =>
      rw [context, contextEndOf_eq_clamp group]
      omega
  | beyond context group stop_lt =>
      rw [context, contextEndOf_eq_clamp group]
      omega

theorem contextEnds_contextEndOf (lookbehind : Bool) (m : Regex.Match) :
    ContextEnds lookbehind m (contextEndOf lookbehind m) := by
  cases lookbehind with
  | false =>
      rw [contextEndOf_eq_start (.inl rfl)]
      exact .plain rfl
  | true =>
      cases hgroup : m.groupEnd? 1 with
      | none =>
          rw [contextEndOf_eq_start (.inr hgroup)]
          exact .absent hgroup
      | some groupEnd =>
          have hle := m.start_le_stop
          have hclamp := contextEndOf_eq_clamp hgroup
          rcases Nat.lt_or_ge groupEnd m.start with hbefore | hstart
          · have hend : contextEndOf true m = m.start := by omega
            rw [hend]
            exact .before rfl hgroup hbefore
          · rcases Nat.lt_or_ge m.stop groupEnd with hbeyond | hstop
            · have hend : contextEndOf true m = m.stop := by omega
              rw [hend]
              exact .beyond rfl hgroup hbeyond
            · have hend : contextEndOf true m = groupEnd := by omega
              rw [hend]
              exact .within rfl hgroup hstart hstop

example : ((Pattern.build "(?<=(a)b)c" { lookbehind := true }).toOption.bind fun p =>
    (p.hit? (.start "abc".toList)).map fun hit => (hit.start, hit.contextEnd, hit.stop)) =
      some (2, 2, 3) := by
  decide +kernel

/-- A hit divides a text: `front` stands before it, `context` and `token` are its own, and `back`
is what remains. -/
structure Divides (hit : Hit) (text front context token back : List Char) : Prop where
  text_eq : text = front ++ context ++ token ++ back
  start_eq : Text.width front = hit.start
  contextEnd_eq : Text.width (front ++ context) = hit.contextEnd
  stop_eq : Text.width (front ++ context ++ token) = hit.stop

theorem Divides.emits_iff {hit : Hit} {text front context token back : List Char}
    (h : hit.Divides text front context token back) : hit.emits = true ↔ token ≠ [] := by
  have hwidth : hit.stop = hit.contextEnd + Text.width token := by
    rw [← h.stop_eq, Text.width_append, h.contextEnd_eq]
  rw [Hit.emits_iff, Ne, ← Text.width_eq_zero_iff]
  omega

theorem Fits.exists_divides {hit : Hit} {text : List Char} (h : hit.Fits text) :
    ∃ front context token back, hit.Divides text front context token back := by
  obtain ⟨c, htext, hstart⟩ := Cursor.exists_offset_eq_iff.mpr h.start
  obtain ⟨context, d, hcontext⟩ := Cursor.exists_readTo?_iff.mpr
    ⟨by rw [hstart]; exact hit.start_le_contextEnd, htext.symm ▸ h.contextEnd⟩
  have htext' : d.text = text := (Cursor.text_eq_of_le (Cursor.le_of_readTo? hcontext)).trans htext
  have hoffset : d.offset = hit.contextEnd := Cursor.offset_of_readTo? hcontext
  obtain ⟨token, e, htoken⟩ := Cursor.exists_readTo?_iff.mpr
    ⟨by rw [hoffset]; exact hit.contextEnd_le_stop, htext'.symm ▸ h.stop⟩
  have hfront : Text.width c.before.reverse = hit.start := by
    rw [Text.width_reverse, ← c.offset_eq, hstart]
  refine ⟨c.before.reverse, context, token, e.after, ?_, hfront, ?_, ?_⟩
  · rw [← htext, Cursor.text, (Cursor.readTo?_eq_some_iff.mp hcontext).1,
      (Cursor.readTo?_eq_some_iff.mp htoken).1]
    simp only [List.append_assoc]
  · rw [Text.width_append, hfront, ← hstart, Cursor.offset_add_width_of_readTo? hcontext]
  · rw [Text.width_append, Text.width_append, hfront, ← hstart,
      Cursor.offset_add_width_of_readTo? hcontext, ← hoffset,
      Cursor.offset_add_width_of_readTo? htoken]

/-- The hit stands for a match that was sought in `text` from the offset `bytes` on. -/
structure StandsFor (hit : Hit) (lookbehind : Bool) (m : Regex.Match) (text : List Char)
    (bytes : Nat) : Prop where
  start_eq : hit.start = m.start
  stop_eq : hit.stop = m.stop
  contextEnds : ContextEnds lookbehind m hit.contextEnd
  ordered : bytes ≤ hit.start ∧ hit.start ≤ hit.contextEnd ∧ hit.contextEnd ≤ hit.stop ∧
    hit.stop ≤ Text.width text
  fits : hit.Fits text
  divides : ∃ front context token back, hit.Divides text front context token back ∧
    (hit.emits = true ↔ token ≠ [])

theorem standsFor_ofMatch {m : Regex.Match} {text : List Char} {bytes : Nat} (lookbehind : Bool)
    (honward : bytes ≤ m.start) (hfits : m.Fits text) :
    (ofMatch lookbehind m).StandsFor lookbehind m text bytes where
  start_eq := rfl
  stop_eq := rfl
  contextEnds := contextEnds_contextEndOf lookbehind m
  ordered := ⟨honward, start_le_contextEndOf lookbehind m, contextEndOf_le_stop lookbehind m,
    hfits.stop.le_width⟩
  fits := hfits.ofMatch lookbehind
  divides := by
    obtain ⟨front, context, token, back, hdivides⟩ := (hfits.ofMatch lookbehind).exists_divides
    exact ⟨front, context, token, back, hdivides, hdivides.emits_iff⟩

theorem StandsFor.ofMatch_eq {hit : Hit} {lookbehind : Bool} {m : Regex.Match} {text : List Char}
    {bytes : Nat} (h : hit.StandsFor lookbehind m text bytes) : ofMatch lookbehind m = hit := by
  have hcontext := h.contextEnds.eq_contextEndOf
  have hstart := h.start_eq
  have hstop := h.stop_eq
  obtain ⟨start, contextEnd, stop, hle, hle'⟩ := hit
  simp only at hstart hstop hcontext
  subst hstart hstop hcontext
  rfl

end Hit

namespace Regex

/-- A way to search from any offset of a text, be it inside a character, where a `Searcher` starts
at the places of cursors only: what match of a regex, if any, is found from there on. An engine that
remembers earlier searches is another one at each of them. -/
abbrev Engine : Type :=
  Regex → List Char → Nat → Option Match

/-- The matches that an engine finds lie where they were sought, and they and their groups end
between characters. -/
structure Engine.Lawful (engine : Engine) : Prop where
  onward : ∀ {r : Regex} {text : List Char} {bytes : Nat} {m : Match}, bytes ≤ Text.width text →
    engine r text bytes = some m → bytes ≤ m.start
  fits : ∀ {r : Regex} {text : List Char} {bytes : Nat} {m : Match}, bytes ≤ Text.width text →
    engine r text bytes = some m → m.Fits text

/-- The search of this library, from an offset. It does not start inside a character. -/
def searchFrom? : Engine := fun r text bytes =>
  ((Cursor.start text).readTo? bytes).bind fun read => r.search? read.2

theorem searchFrom?_offset (r : Regex) (c : Cursor) :
    r.searchFrom? c.text c.offset = r.search? c := by
  rw [searchFrom?, Cursor.readTo?_start, Option.bind_some]

theorem lawful_searchFrom? : Engine.Lawful searchFrom? := by
  have hfound {r : Regex} {text : List Char} {bytes : Nat} {m : Match}
      (h : r.searchFrom? text bytes = some m) : bytes ≤ m.start ∧ m.Fits text := by
    obtain ⟨⟨front, c⟩, hread, hsearch⟩ := Option.bind_eq_some_iff.mp h
    have htext : c.text = text :=
      (Cursor.text_eq_of_le (Cursor.le_of_readTo? hread)).trans (Cursor.start_text text)
    rw [← Cursor.offset_of_readTo? hread, ← htext]
    exact fits_of_search? hsearch
  exact ⟨fun _ h => (hfound h).1, fun _ h => (hfound h).2⟩

end Regex

namespace Pattern

/-- The hit that an engine finds in a text from an offset on. -/
def hitBy? (p : Pattern) (engine : Regex.Engine) (text : List Char) (bytes : Nat) : Option Hit :=
  (engine p.regex text bytes).map (Hit.ofMatch p.lookbehind)

theorem hitBy?_searchFrom? (p : Pattern) (c : Cursor) :
    p.hitBy? Regex.searchFrom? c.text c.offset = p.hit? c := by
  rw [hitBy?, Regex.searchFrom?_offset]
  rfl

theorem lookbehind_of_build {source : String} {options : Options} {p : Pattern}
    (h : build source options = .ok p) : p.lookbehind = options.lookbehind := by
  unfold build at h
  split at h
  next => cases h
  next regex hcompile =>
    split at h
    next => cases h
    next =>
      cases h
      rfl

theorem hitBy?_eq_some_iff (p : Pattern) {engine : Regex.Engine} (hengine : engine.Lawful)
    {text : List Char} {bytes : Nat} (hbytes : bytes ≤ Text.width text) {hit : Hit} :
    p.hitBy? engine text bytes = some hit ↔
      ∃ m, engine p.regex text bytes = some m ∧ hit.StandsFor p.lookbehind m text bytes := by
  rw [hitBy?, Option.map_eq_some_iff]
  refine exists_congr fun m => and_congr_right fun hm => ?_
  constructor
  · rintro rfl
    exact Hit.standsFor_ofMatch p.lookbehind (hengine.onward hbytes hm) (hengine.fits hbytes hm)
  · exact Hit.StandsFor.ofMatch_eq

/-- A pattern finds a hit exactly if its regex finds a match, and then the hit stands for that
match: its ends are those of the match, in the text behind the place of the search and between
characters, and it is divided where the context ends. This is so with the search of this library,
and with every engine whose matches lie where they were sought and end, with their groups, between
characters. -/
theorem hits_standFor {source : String} {options : Options} {p : Pattern}
    (hbuild : build source options = .ok p) :
    (∀ (c : Cursor) (hit : Hit), p.hit? c = some hit ↔
      ∃ m, p.regex.search? c = some m ∧ hit.StandsFor options.lookbehind m c.text c.offset) ∧
    ∀ engine : Regex.Engine, engine.Lawful → ∀ (text : List Char) (bytes : Nat),
      bytes ≤ Text.width text → ∀ hit : Hit, p.hitBy? engine text bytes = some hit ↔
        ∃ m, engine p.regex text bytes = some m ∧
          hit.StandsFor options.lookbehind m text bytes := by
  rw [← lookbehind_of_build hbuild]
  constructor
  · intro c hit
    have hbytes : c.offset ≤ Text.width c.text := (Cursor.boundary_offset rfl).le_width
    rw [← hitBy?_searchFrom?, p.hitBy?_eq_some_iff Regex.lawful_searchFrom? hbytes,
      Regex.searchFrom?_offset]
  · intro engine hengine text bytes hbytes hit
    exact p.hitBy?_eq_some_iff hengine hbytes

/-- Where the first group lies in what is looked ahead at, all of the match is context. -/
theorem hits_standFor_lookahead :
    ∃ p m hit, build "é(?=x(b))" { lookbehind := true } = .ok p ∧
      Regex.Engine.Lawful Regex.searchFrom? ∧ 2 ≤ Text.width "äéxb".toList ∧
      p.regex.searchFrom? "äéxb".toList 2 = some m ∧ m.groupEnd? 1 = some 6 ∧
      p.hitBy? Regex.searchFrom? "äéxb".toList 2 = some hit ∧
      hit.StandsFor true m "äéxb".toList 2 ∧ hit.contextEnd = 4 ∧ hit.stop = 4 := by
  have hcheck : ((build "é(?=x(b))" { lookbehind := true }).toOption.bind fun p =>
      (p.regex.searchFrom? "äéxb".toList 2).map fun m => (m.start, m.stop, m.groupEnd? 1)) =
        some (2, 4, some 6) := by
    decide +kernel
  obtain ⟨p, hp, hfound⟩ := Option.bind_eq_some_iff.mp hcheck
  obtain ⟨m, hm, hends⟩ := Option.map_eq_some_iff.mp hfound
  simp only [Prod.mk.injEq] at hends
  obtain ⟨hstart, hstop, hgroup⟩ := hends
  have hbuild := eq_ok_of_toOption_eq_some hp
  have hbytes : 2 ≤ Text.width "äéxb".toList := by decide
  have hhit : p.hitBy? Regex.searchFrom? "äéxb".toList 2 = some (Hit.ofMatch p.lookbehind m) := by
    rw [hitBy?, hm, Option.map_some]
  obtain ⟨found, hfound, hstands⟩ := ((hits_standFor hbuild).2 Regex.searchFrom?
    Regex.lawful_searchFrom? _ 2 hbytes _).mp hhit
  cases hm.symm.trans hfound
  have hcontextEnd := hstands.contextEnds.eq_contextEndOf
  rw [Hit.contextEndOf_eq_clamp hgroup, hstart, hstop] at hcontextEnd
  exact ⟨p, m, _, hbuild, Regex.lawful_searchFrom?, hbytes, hm, hgroup, hhit, hstands, hcontextEnd,
    hstands.stop_eq.trans hstop⟩

end Pattern

end Highlight
