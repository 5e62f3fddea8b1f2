import Highlight.Compose.Focus
import Highlight.Proofs.Compose.WellFormed

/-!
Parts put in the place of others. What a focus leads to is exchanged, and all around it stays as it
is (`Grammar.exchanges_of_focusAlong?`). So look-ups that do not lead to the part, or through it,
find what they found before (`Grammar.Exchanges.tokenAlong?_eq`).
-/

namespace Highlight

/-- `t.Refills old new t'` if `old` is the grammar inside the first pattern of `t` that has one,
and `t'` is `t` with `new` instead. -/
structure Token.Refills (old new : Grammar) (t t' : Token) : Prop where
  name_eq : t'.name = t.name
  patterns_eq : ∃ above pattern below, (∀ p ∈ above, p.inside = none) ∧
    pattern.inside = some old ∧ t.patterns = above ++ pattern :: below ∧
    t'.patterns = above ++ { pattern with inside := some new } :: below

/-- `g.Alters old new g'` if `old` is the first token of its name in `g`, and `g'` is `g` with `new`
instead. -/
structure Grammar.Alters (old new : Token) (g g' : Grammar) : Prop where
  name_eq : g'.name = g.name
  parent_eq : g'.parent = g.parent
  tokens_eq : ∃ before after, (∀ t ∈ before, t.name ≠ old.name) ∧
    g.tokens = before ++ old :: after ∧ g'.tokens = before ++ new :: after

/-- `g.Exchanges names old new g'` if the names lead from `g` to the grammar `old` inside it, and
`g'` is `g` with `new` instead, while all else in it is as before, at any depth. -/
inductive Grammar.Exchanges : Grammar → List String → Grammar → Grammar → Grammar → Prop
  | here (old new : Grammar) : Grammar.Exchanges old [] old new new
  | inside {g h h' g' old new : Grammar} {token token' : Token} {names : List String}
      (alters : g.Alters token token' g') (refills : token.Refills h h' token')
      (exchanges : Grammar.Exchanges h names old new h') :
      Grammar.Exchanges g (token.name :: names) old new g'

/-- The grammar to which some names lead, each by way of the token of that name. -/
def Grammar.insideAlong? (g : Grammar) : List String → Option Grammar
  | [] => some g
  | name :: rest => do
      let inner ← (← g.find? name).inside?
      inner.insideAlong? rest

theorem Spot.not_of_mem_before {α : Type} {p : α → Bool} {xs : List α} {spot : Spot α}
    (h : find? p xs = some spot) {a : α} (ha : a ∈ spot.before) : p a = false := by
  induction xs generalizing spot with
  | nil => cases h
  | cons x rest ih =>
      rw [find?] at h
      split at h
      next =>
        cases h
        cases ha
      next hx =>
        obtain ⟨inner, hinner, rfl⟩ := Option.map_eq_some_iff.mp h
        rcases List.mem_cons.mp ha with rfl | ha
        · simpa using hx
        · exact ih hinner ha

namespace Token

theorem ext {t t' : Token} (hname : t.name = t'.name) (hpatterns : t.patterns = t'.patterns) :
    t = t' := by
  cases t
  cases t'
  simp_all

namespace Refills

variable {t t' : Token} {old new : Grammar}

theorem inside?_eq (h : t.Refills old new t') : t.inside? = some old := by
  obtain ⟨above, pattern, below, habove, hinside, hpatterns, -⟩ := h.patterns_eq
  rw [inside?, hpatterns, List.findSome?_append, List.findSome?_eq_none_iff.mpr habove]
  simp [hinside]

theorem symm (h : t.Refills old new t') : t'.Refills new old t := by
  obtain ⟨above, pattern, below, habove, hinside, hpatterns, hpatterns'⟩ := h.patterns_eq
  refine ⟨h.name_eq.symm, above, { pattern with inside := some new }, below, habove, rfl,
    hpatterns', ?_⟩
  rw [hpatterns, ← hinside]
  cases pattern
  rfl

theorem eq_self (h : t.Refills old old t') : t' = t := by
  obtain ⟨above, pattern, below, -, hinside, hpatterns, hpatterns'⟩ := h.patterns_eq
  apply Token.ext h.name_eq
  rw [hpatterns', hpatterns, ← hinside]
  cases pattern
  rfl

end Refills

theorem refills_of_focusInside? {t : Token} {focus : Focus Grammar Token}
    (h : t.focusInside? = some focus) (inner : Grammar) :
    t.Refills focus.value inner (focus.plug inner) := by
  obtain ⟨spot, hspot, h⟩ := Option.bind_eq_some_iff.mp h
  obtain ⟨found, hfound, heq⟩ := Option.bind_eq_some_iff.mp h
  cases heq
  refine ⟨rfl, spot.before, spot.value, spot.after, ?_, hfound,
    (Spot.fill_value_of_find? hspot).symm, rfl⟩
  intro p hp
  simpa using Spot.not_of_mem_before hspot hp

end Token

namespace Grammar

theorem ext {g g' : Grammar} (hname : g.name = g'.name) (htokens : g.tokens = g'.tokens)
    (hparent : g.parent = g'.parent) : g = g' := by
  cases g
  cases g'
  simp_all

namespace Alters

variable {g g' : Grammar} {old new : Token}

theorem find?_eq (h : g.Alters old new g') : g.find? old.name = some old := by
  obtain ⟨before, after, hbefore, htokens, -⟩ := h.tokens_eq
  have hnone : before.find? (·.name == old.name) = none := by simpa using hbefore
  rw [find?, htokens, List.find?_append, hnone]
  simp

theorem symm (h : g.Alters old new g') (hname : new.name = old.name) : g'.Alters new old g := by
  obtain ⟨before, after, hbefore, htokens, htokens'⟩ := h.tokens_eq
  exact ⟨h.name_eq.symm, h.parent_eq.symm, before, after, by rwa [hname], htokens', htokens⟩

theorem find?_of_ne (h : g.Alters old new g') (hname : new.name = old.name) {name : String}
    (hne : name ≠ old.name) : g'.find? name = g.find? name := by
  obtain ⟨before, after, -, htokens, htokens'⟩ := h.tokens_eq
  have hold : (old.name == name) = false := by simpa using hne.symm
  rw [find?, find?, htokens, htokens', List.find?_append, List.find?_append]
  simp [hname, hold]

theorem tokenNames_eq (h : g.Alters old new g') (hname : new.name = old.name) :
    g'.tokenNames = g.tokenNames := by
  obtain ⟨before, after, -, htokens, htokens'⟩ := h.tokens_eq
  rw [tokenNames, tokenNames, htokens, htokens']
  simp [hname]

theorem eq_self (h : g.Alters old old g') : g' = g := by
  obtain ⟨before, after, -, htokens, htokens'⟩ := h.tokens_eq
  exact Grammar.ext h.name_eq (htokens'.trans htokens.symm) h.parent_eq

end Alters

theorem alters_of_focus? {g : Grammar} {name : String} {focus : Focus Token Grammar}
    (h : g.focus? name = some focus) :
    focus.value.name = name ∧ ∀ token, g.Alters focus.value token (focus.plug token) := by
  obtain ⟨spot, hspot, heq⟩ := Option.bind_eq_some_iff.mp h
  cases heq
  have hname : spot.value.name = name := by simpa using Spot.apply_value_of_find? hspot
  refine ⟨hname, fun token => ⟨rfl, rfl, spot.before, spot.after, ?_,
    (Spot.fill_value_of_find? hspot).symm, rfl⟩⟩
  intro t ht
  rw [hname]
  simpa using Spot.not_of_mem_before hspot ht

theorem exchanges_of_focusAlong? {g : Grammar} {names : List String}
    {focus : Focus Grammar Grammar} (h : g.focusAlong? names = some focus) (inner : Grammar) :
    g.Exchanges names focus.value inner (focus.plug inner) := by
  induction names generalizing g focus with
  | nil =>
      cases h
      exact .here g inner
  | cons name rest ih =>
      obtain ⟨token, htoken, h⟩ := Option.bind_eq_some_iff.mp h
      obtain ⟨inside, hinside, h⟩ := Option.bind_eq_some_iff.mp h
      obtain ⟨owner, howner, heq⟩ := Option.bind_eq_some_iff.mp h
      cases heq
      obtain ⟨rfl, halters⟩ := alters_of_focus? htoken
      exact .inside (halters _) (Token.refills_of_focusInside? hinside _) (ih howner)

/-- The first name of a path decides alone on where the path goes on. -/
theorem tokenAlong?_congr {g g' : Grammar} {name : String} (h : g'.find? name = g.find? name)
    (rest : List String) : g'.tokenAlong? (name :: rest) = g.tokenAlong? (name :: rest) := by
  cases rest <;> simp only [tokenAlong?, h]

/-- To change a token at a path is to alter it in the grammar that owns it, and to exchange that
one. -/
theorem exchanges_of_focusToken? {g : Grammar} {path : String} {focus : Focus Token Grammar}
    (h : g.focusToken? path = some focus) :
    focus.value.name = Path.last path ∧ ∃ owner, ∀ token, ∃ owner',
      owner.Alters focus.value token owner' ∧
        g.Exchanges (Path.owners path) owner owner' (focus.plug token) := by
  obtain ⟨outer, houter, h⟩ := Option.bind_eq_some_iff.mp h
  obtain ⟨inner, hinner, heq⟩ := Option.bind_eq_some_iff.mp h
  cases heq
  obtain ⟨hname, halters⟩ := alters_of_focus? hinner
  exact ⟨hname, outer.value, fun token => ⟨inner.plug token, halters token,
    exchanges_of_focusAlong? houter _⟩⟩

namespace Exchanges

variable {g g' old new : Grammar} {names : List String}

theorem insideAlong?_eq (h : g.Exchanges names old new g') : g.insideAlong? names = some old := by
  induction h with
  | here => rfl
  | inside halters hrefills _ ih => simp [insideAlong?, halters.find?_eq, hrefills.inside?_eq, ih]

theorem symm (h : g.Exchanges names old new g') : g'.Exchanges names new old g := by
  induction h with
  | here old new => exact .here new old
  | inside halters hrefills _ ih =>
      rw [← hrefills.name_eq]
      exact .inside (halters.symm hrefills.name_eq) hrefills.symm ih

theorem eq_of_eq (h : g.Exchanges names old new g') (heq : new = old) : g' = g := by
  induction h with
  | here => exact heq
  | inside halters hrefills _ ih =>
      obtain rfl := ih heq
      obtain rfl := hrefills.eq_self
      exact halters.eq_self

/-- Along the way to the part that is exchanged, and there too if the new one has the same token
names, all grammars keep their token names. -/
theorem tokenNames_along (h : g.Exchanges names old new g')
    (hnames : new.tokenNames = old.tokenNames) {way : List String} (hway : way <+: names) :
    (g'.insideAlong? way).map tokenNames = (g.insideAlong? way).map tokenNames := by
  induction h generalizing way with
  | here old new =>
      obtain rfl := List.prefix_nil.mp hway
      simp [insideAlong?, hnames]
  | inside halters hrefills _ ih =>
      cases way with
      | nil => simp [insideAlong?, halters.tokenNames_eq hrefills.name_eq]
      | cons name way =>
          obtain ⟨rfl, hrest⟩ := List.cons_prefix_cons.mp hway
          have hback := (halters.symm hrefills.name_eq).find?_eq
          rw [hrefills.name_eq] at hback
          simp only [insideAlong?, halters.find?_eq, hback, hrefills.inside?_eq,
            hrefills.symm.inside?_eq, Option.bind_eq_bind, Option.bind_some]
          exact ih hnames hrest

/-- Where a token is altered in a grammar that is exchanged for another one, a look-up that leads
neither to the token nor through it, nor stops before it, finds what it found before. -/
theorem tokenAlong?_eq {token token' : Token} (h : g.Exchanges names old new g')
    (halters : old.Alters token token' new) (hname : token'.name = token.name)
    {others : List String} (hnot : ¬ names ++ [token.name] <+: others)
    (hnot' : ¬ others <+: names ++ [token.name]) :
    g'.tokenAlong? others = g.tokenAlong? others := by
  induction h generalizing others with
  | here old new =>
      cases others with
      | nil => exact absurd List.nil_prefix hnot'
      | cons name rest =>
          apply tokenAlong?_congr
          apply halters.find?_of_ne hname
          rintro rfl
          exact hnot (List.cons_prefix_cons.mpr ⟨rfl, List.nil_prefix⟩)
  | @inside g h h' g' old new owner owner' names hown hrefills _ ih =>
      cases others with
      | nil => exact absurd List.nil_prefix hnot'
      | cons name rest =>
          by_cases hsame : name = owner.name
          · subst hsame
            rw [List.cons_append, List.cons_prefix_cons] at hnot hnot'
            have hback := (hown.symm hrefills.name_eq).find?_eq
            rw [hrefills.name_eq] at hback
            cases rest with
            | nil => exact absurd ⟨rfl, List.nil_prefix⟩ hnot'
            | cons next more =>
                simp only [tokenAlong?, hown.find?_eq, hback, hrefills.inside?_eq,
                  hrefills.symm.inside?_eq, Option.bind_eq_bind, Option.bind_some]
                exact ih halters (fun h => hnot ⟨rfl, h⟩) fun h => hnot' ⟨rfl, h⟩
          · exact tokenAlong?_congr (hown.find?_of_ne hrefills.name_eq hsame) rest

end Exchanges

theorem plug_value_of_focusAlong? {g : Grammar} {names : List String}
    {focus : Focus Grammar Grammar} (h : g.focusAlong? names = some focus) :
    focus.plug focus.value = g :=
  (exchanges_of_focusAlong? h focus.value).eq_of_eq rfl

theorem plug_value_of_focusToken? {g : Grammar} {path : String} {focus : Focus Token Grammar}
    (h : g.focusToken? path = some focus) : focus.plug focus.value = g := by
  obtain ⟨-, owner, hplug⟩ := exchanges_of_focusToken? h
  obtain ⟨owner', halters, hexchanges⟩ := hplug focus.value
  exact hexchanges.eq_of_eq halters.eq_self

end Grammar

end Highlight
