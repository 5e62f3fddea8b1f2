import Highlight.Proofs.Text.Order
import Highlight.Regex.Matching

/-!
What becomes of the progress of a match. A matcher hands on only progress that it has made from
the one it was given, so that a relation between the two that each single move respects holds
after any match (`Expr.run_respects`). Hence matches stay within the text and never move back
(`Expr.run_onward`).
-/

namespace Highlight.Regex

/-- A relation between earlier and later progress that single moves respect. A look around the
place reached may start at any other place of the text, and always comes back. -/
structure Progress.Stable (R : Progress → Progress → Prop) : Prop where
  refl : ∀ p, R p p
  trans : ∀ {p q r}, R p q → R q r → R p r
  moved : ∀ {p : Progress} {place : Cursor}, p.place ≤ place → R p (p.moved place)
  closed : ∀ {p q : Progress} {number : Nat}, R (p.opened number) q →
    R p (q.closed number p.place)
  returned : ∀ {p q : Progress} {first : Cursor}, first.text = p.place.text →
    R (p.moved first) q → R p (q.moved p.place)

/-- A matcher succeeds only by handing on progress in the given relation to its own. -/
def Matcher.Respects (R : Progress → Progress → Prop) (m : Matcher) : Prop :=
  ∀ p next r, m p next = some r → ∃ q, R p q ∧ next q = some r

theorem eq_some_of_orElse {α : Type} {a b : Option α} {r : α} (h : (a <|> b) = some r) :
    a = some r ∨ b = some r := by
  rw [Option.orElse_eq_orElse, Option.orElse_eq_or, Option.or_eq_some_iff] at h
  exact h.imp id And.right

namespace Matcher.Respects

variable {R : Progress → Progress → Prop} {m : Matcher} (hrefl : ∀ p, R p p)
  (htrans : ∀ {p q r}, R p q → R q r → R p r)

include hrefl htrans

theorem times (hm : m.Respects R) (count : Nat) :
    Respects R (Matcher.times m count) := by
  induction count with
  | zero =>
      intro p next r h
      exact ⟨p, hrefl p, h⟩
  | succ count ih =>
      intro p next r h
      obtain ⟨q, hq, hrest⟩ := hm p _ r h
      obtain ⟨q', hq', hnext⟩ := ih q next r hrest
      exact ⟨q', htrans hq hq', hnext⟩

theorem upTo (hm : m.Respects R) (greedy : Bool) (count : Nat) :
    Respects R (Matcher.upTo m greedy count) := by
  induction count with
  | zero =>
      intro p next r h
      exact ⟨p, hrefl p, h⟩
  | succ count ih =>
      intro p next r h
      have hagain : (m p fun q => Matcher.upTo m greedy count q next) = some r →
          ∃ q, R p q ∧ next q = some r := by
        intro h
        obtain ⟨q, hq, hrest⟩ := hm p _ r h
        obtain ⟨q', hq', hnext⟩ := ih q next r hrest
        exact ⟨q', htrans hq hq', hnext⟩
      rw [Matcher.upTo] at h
      split at h
      · rcases eq_some_of_orElse h with h | h
        · exact hagain h
        · exact ⟨p, hrefl p, h⟩
      · rcases eq_some_of_orElse h with h | h
        · exact ⟨p, hrefl p, h⟩
        · exact hagain h

theorem star (hm : m.Respects R) (greedy : Bool) :
    Respects R (Matcher.star m greedy) := by
  intro p next r h
  -- A round is followed by another one only if it has left less of the text.
  induction hleft : p.place.left using Nat.strongRecOn generalizing p with
  | ind left ih =>
      subst hleft
      have hagain : (m p fun q =>
            if _h : q.place.left < p.place.left then Matcher.star m greedy q next
            else next q) = some r →
          ∃ q, R p q ∧ next q = some r := by
        intro h
        obtain ⟨q, hq, hrest⟩ := hm p _ r h
        split at hrest
        next hshorter =>
          obtain ⟨q', hq', hnext⟩ := ih _ hshorter q hrest rfl
          exact ⟨q', htrans hq hq', hnext⟩
        next => exact ⟨q, hq, hrest⟩
      rw [Matcher.star] at h
      split at h
      · rcases eq_some_of_orElse h with h | h
        · exact hagain h
        · exact ⟨p, hrefl p, h⟩
      · rcases eq_some_of_orElse h with h | h
        · exact ⟨p, hrefl p, h⟩
        · exact hagain h

end Matcher.Respects

theorem readText?_onward {fold : Bool} {text : List Char} {c d : Cursor}
    (h : readText? fold text c = some d) : c ≤ d := by
  induction text generalizing c with
  | nil =>
      rw [readText?, Option.some.injEq] at h
      exact h ▸ Cursor.le_refl c
  | cons char rest ih =>
      rw [readText?] at h
      split at h
      next found e hnext =>
        split at h
        · exact Cursor.le_trans (Cursor.le_of_next? hnext) (ih h)
        · simp at h
      next => simp at h

/-- Whether an expression tells where the match is to begin. -/
def Expr.keeps : Expr → Bool
  | .keep => true
  | .empty | .one _ | .anchor _ | .backref _ _ => false
  | .seq a b | .alt a b => a.keeps || b.keeps
  | .group _ body | .atomic body | .ahead _ body | .behind _ body | .repeated body _ _ _ =>
      body.keeps

/-- An expression respects each relation that single moves respect. -/
theorem Expr.run_respects {R : Progress → Progress → Prop} (hR : Progress.Stable R)
    (origin : Nat) (e : Expr)
    (hkeep : e.keeps = true → ∀ p : Progress, R p { p with keep := some p.place }) :
    Matcher.Respects R (e.run origin) := by
  induction e with
  | empty =>
      intro p next r h
      exact ⟨p, hR.refl p, h⟩
  | one of =>
      intro p next r h
      rw [Expr.run] at h
      split at h
      next char place hnext =>
        split at h
        · exact ⟨_, hR.moved (Cursor.le_of_next? hnext), h⟩
        · simp at h
      next => simp at h
  | seq a b iha ihb =>
      intro p next r h
      simp only [Expr.keeps, Bool.or_eq_true] at hkeep
      obtain ⟨q, hq, hrest⟩ := iha (fun ha => hkeep (.inl ha)) p _ r h
      obtain ⟨q', hq', hnext⟩ := ihb (fun hb => hkeep (.inr hb)) q next r hrest
      exact ⟨q', hR.trans hq hq', hnext⟩
  | alt a b iha ihb =>
      intro p next r h
      simp only [Expr.keeps, Bool.or_eq_true] at hkeep
      rw [Expr.run] at h
      rcases eq_some_of_orElse h with h | h
      · exact iha (fun ha => hkeep (.inl ha)) p next r h
      · exact ihb (fun hb => hkeep (.inr hb)) p next r h
  | group number body ih =>
      intro p next r h
      obtain ⟨q, hq, hnext⟩ := ih hkeep _ _ r h
      exact ⟨_, hR.closed hq, hnext⟩
  | atomic body ih =>
      intro p next r h
      obtain ⟨s, hs, hnext⟩ := Option.bind_eq_some_iff.mp h
      obtain ⟨q, hq, hsome⟩ := ih hkeep p some s hs
      cases hsome
      exact ⟨_, hq, hnext⟩
  | ahead negate body ih =>
      intro p next r h
      simp only [Expr.run] at h
      split at h
      next s hs =>
        obtain ⟨q, hq, hsome⟩ := ih hkeep p some s hs
        cases hsome
        exact ⟨_, hR.returned rfl hq, h⟩
      next => exact ⟨p, hR.refl p, h⟩
      next => simp at h
  | behind negate body ih =>
      intro p next r h
      simp only [Expr.run] at h
      split at h
      next s hs =>
        obtain ⟨first, hfirst, hs⟩ := List.exists_of_findSome?_eq_some hs
        obtain ⟨q, hq, hend⟩ := ih hkeep (p.moved first) _ s hs
        split at hend
        · cases hend
          exact ⟨_, hR.returned (Cursor.text_eq_of_mem_backward hfirst) hq, h⟩
        · simp at hend
      next => exact ⟨p, hR.refl p, h⟩
      next => simp at h
  | anchor condition =>
      intro p next r h
      rw [Expr.run] at h
      split at h
      · exact ⟨p, hR.refl p, h⟩
      · simp at h
  | backref numbers fold =>
      intro p next r h
      rw [Expr.run] at h
      split at h
      next capture hcapture =>
        obtain ⟨place, hplace, hnext⟩ := Option.bind_eq_some_iff.mp h
        exact ⟨_, hR.moved (readText?_onward hplace), hnext⟩
      next => simp at h
  | repeated body least most greedy ih =>
      intro p next r h
      have hbody := ih hkeep
      obtain ⟨q, hq, hrest⟩ := hbody.times hR.refl hR.trans least p _ r h
      cases most with
      | none =>
          obtain ⟨q', hq', hnext⟩ := hbody.star hR.refl hR.trans greedy q next r hrest
          exact ⟨q', hR.trans hq hq', hnext⟩
      | some most =>
          obtain ⟨q', hq', hnext⟩ :=
            hbody.upTo hR.refl hR.trans greedy (most - least) q next r hrest
          exact ⟨q', hR.trans hq hq', hnext⟩
  | keep =>
      intro p next r h
      exact ⟨_, hkeep rfl p, h⟩

/-- All places that a match remembers lie in one text. -/
structure Progress.Within (text : List Char) (p : Progress) : Prop where
  place : p.place.text = text
  groups : ∀ entry ∈ p.groups, entry.2.last.text = text
  keep : ∀ place, p.keep = some place → place.text = text

namespace Progress

theorem within_ofPlace (c : Cursor) : (ofPlace c).Within c.text :=
  ⟨rfl, by simp [ofPlace], by simp [ofPlace]⟩

/-- Progress stays within the text and does not move back. -/
def Onward (p q : Progress) : Prop :=
  ∀ text, p.Within text → q.Within text ∧ p.place.offset ≤ q.place.offset

theorem stable_onward : Stable Onward where
  refl := fun p text hp => ⟨hp, Nat.le_refl _⟩
  trans := by
    intro p q r hpq hqr text hp
    obtain ⟨hq, hle⟩ := hpq text hp
    obtain ⟨hr, hle'⟩ := hqr text hq
    exact ⟨hr, Nat.le_trans hle hle'⟩
  moved := by
    intro p place hplace text hp
    have htext : place.text = text := (Cursor.text_eq_of_le hplace).trans hp.place
    exact ⟨⟨htext, hp.groups, hp.keep⟩, Cursor.offset_le_of_le hplace⟩
  closed := by
    intro p q number hpq text hp
    have hopened : (p.opened number).Within text :=
      ⟨hp.place, fun entry hmem => hp.groups entry ((List.mem_filter.mp hmem).1), hp.keep⟩
    obtain ⟨hq, hle⟩ := hpq text hopened
    refine ⟨⟨hq.place, ?_, hq.keep⟩, hle⟩
    intro entry hmem
    rcases List.mem_cons.mp hmem with rfl | hmem
    · exact hq.place
    · exact hq.groups entry hmem
  returned := by
    intro p q first hfirst hpq text hp
    have hmoved : (p.moved first).Within text :=
      ⟨hfirst.trans hp.place, hp.groups, hp.keep⟩
    obtain ⟨hq, -⟩ := hpq text hmoved
    exact ⟨⟨hp.place, hq.groups, hq.keep⟩, Nat.le_refl _⟩

theorem stable_keep : Stable fun p q => q.keep = p.keep where
  refl := fun _ => rfl
  trans := fun hpq hqr => hqr.trans hpq
  moved := fun _ => rfl
  closed := fun hpq => hpq
  returned := fun _ hpq => hpq

end Progress

theorem Expr.run_onward {origin : Nat} {e : Expr} {text : List Char} {p r : Progress}
    (hp : p.Within text) (h : e.run origin p some = some r) :
    r.Within text ∧ p.place.offset ≤ r.place.offset := by
  have hkeep (q : Progress) : q.Onward { q with keep := some q.place } := by
    intro text hq
    refine ⟨⟨hq.place, hq.groups, ?_⟩, Nat.le_refl _⟩
    rintro _ ⟨⟩
    exact hq.place
  obtain ⟨q, hpq, hsome⟩ :=
    Expr.run_respects Progress.stable_onward origin e (fun _ => hkeep) p some r h
  cases hsome
  exact hpq text hp

theorem Expr.keep_run {origin : Nat} {e : Expr} {p r : Progress} (he : e.keeps = false)
    (h : e.run origin p some = some r) : r.keep = p.keep := by
  obtain ⟨q, hpq, hsome⟩ :=
    Expr.run_respects Progress.stable_keep origin e (fun hkeep => by simp [he] at hkeep) p some r h
  cases hsome
  exact hpq

/-- As many characters an expression takes at least. -/
def Expr.least : Expr → Nat
  | .one _ => 1
  | .seq a b => a.least + b.least
  | .alt a b => min a.least b.least
  | .group _ body | .atomic body => body.least
  | .repeated body least _ _ => least * body.least
  | .empty | .ahead _ _ | .behind _ _ | .anchor _ | .backref _ _ | .keep => 0

namespace Progress

/-- Progress leaves fewer characters to take, by a number of them. -/
def Takes (count : Nat) (p q : Progress) : Prop :=
  q.place.left + count ≤ p.place.left

theorem Takes.trans {m n : Nat} {p q r : Progress} (h : p.Takes m q) (h' : q.Takes n r) :
    p.Takes (m + n) r := by
  unfold Takes at *
  omega

theorem stable_takes : Stable (Takes 0) where
  refl := fun _ => Nat.le_refl _
  trans := Takes.trans
  moved := by
    intro p place hle
    obtain ⟨front, hafter, -⟩ := hle
    have hlength := congrArg List.length hafter
    rw [List.length_append, ← p.place.left_eq, ← place.left_eq] at hlength
    show place.left + 0 ≤ p.place.left
    omega
  closed := fun hpq => hpq
  returned := fun _ _ => Nat.le_refl _

end Progress

theorem Matcher.Respects.times_takes {m : Matcher} {least : Nat}
    (hm : m.Respects (Progress.Takes least)) (count : Nat) :
    Respects (Progress.Takes (count * least)) (Matcher.times m count) := by
  induction count with
  | zero =>
      intro p next r h
      exact ⟨p, by simp [Progress.Takes], h⟩
  | succ count ih =>
      intro p next r h
      obtain ⟨q, hq, hrest⟩ := hm p _ r h
      obtain ⟨q', hq', hnext⟩ := ih q next r hrest
      rw [Nat.succ_mul, Nat.add_comm]
      exact ⟨q', hq.trans hq', hnext⟩

theorem Expr.run_takes (origin : Nat) (e : Expr) :
    Matcher.Respects (Progress.Takes e.least) (e.run origin) := by
  have hzero (e : Expr) : Matcher.Respects (Progress.Takes 0) (e.run origin) :=
    e.run_respects Progress.stable_takes origin fun _ p => Progress.stable_takes.refl p
  induction e with
  | one of =>
      intro p next r h
      rw [Expr.run] at h
      split at h
      next char place hnext =>
        split at h
        · have hlength := Cursor.length_after_next? hnext
          rw [← place.left_eq, ← p.place.left_eq] at hlength
          exact ⟨p.moved place, hlength, h⟩
        · cases h
      next => cases h
  | seq a b iha ihb =>
      intro p next r h
      obtain ⟨q, hq, hrest⟩ := iha p _ r h
      obtain ⟨q', hq', hnext⟩ := ihb q next r hrest
      exact ⟨q', hq.trans hq', hnext⟩
  | alt a b iha ihb =>
      intro p next r h
      rw [Expr.run] at h
      rcases eq_some_of_orElse h with h | h
      · obtain ⟨q, hq, hnext⟩ := iha p next r h
        exact ⟨q, Nat.le_trans (Nat.add_le_add_left (Nat.min_le_left _ _) _) hq, hnext⟩
      · obtain ⟨q, hq, hnext⟩ := ihb p next r h
        exact ⟨q, Nat.le_trans (Nat.add_le_add_left (Nat.min_le_right _ _) _) hq, hnext⟩
  | group number body ih =>
      intro p next r h
      obtain ⟨q, hq, hnext⟩ := ih _ _ r h
      exact ⟨q.closed number p.place, hq, hnext⟩
  | atomic body ih =>
      intro p next r h
      obtain ⟨s, hs, hnext⟩ := Option.bind_eq_some_iff.mp h
      obtain ⟨q, hq, hsome⟩ := ih p some s hs
      cases hsome
      exact ⟨_, hq, hnext⟩
  | repeated body least most greedy ih =>
      intro p next r h
      obtain ⟨q, hq, hrest⟩ := ih.times_takes least p _ r h
      cases most with
      | none =>
          obtain ⟨q', hq', hnext⟩ := (hzero body).star Progress.stable_takes.refl
            Progress.stable_takes.trans greedy q next r hrest
          exact ⟨q', hq.trans hq', hnext⟩
      | some most =>
          obtain ⟨q', hq', hnext⟩ := (hzero body).upTo Progress.stable_takes.refl
            Progress.stable_takes.trans greedy (most - least) q next r hrest
          exact ⟨q', hq.trans hq', hnext⟩
  | empty => exact hzero .empty
  | ahead negate body => exact hzero (.ahead negate body)
  | behind negate body => exact hzero (.behind negate body)
  | anchor condition => exact hzero (.anchor condition)
  | backref numbers fold => exact hzero (.backref numbers fold)
  | keep => exact hzero .keep

end Highlight.Regex
