import Highlight.Proofs.Regex.Progress
import Highlight.Proofs.Regex.Ways

/-!
What groups hold. A reference back to a group reads the text that the group holds, and expressions
without groups leave the groups as they are (`Expr.Quiet`).
-/

namespace Highlight.Regex

theorem readText?_of_reads {fold : Bool} {text : List Char} {c d : Cursor} (h : c.Reads text d) :
    readText? fold text c = some d := by
  induction text generalizing c with
  | nil =>
      obtain rfl := h.eq_of_nil
      rfl
  | cons char text ih =>
      obtain ⟨e, hfirst, hrest⟩ := h.exists_of_cons
      simp only [readText?, Cursor.reads_single_iff.mp hfirst, sameChar, beq_self_eq_true,
        Bool.true_or, if_true]
      exact ih hrest

namespace Progress

/-- A group holds a text. -/
def Holds (p : Progress) (number : Nat) (text : List Char) : Prop :=
  ∃ capture, p.capture? number = some capture ∧ capture.text = text

variable {p : Progress} {number : Nat} {text : List Char} {c : Cursor}

theorem holds_closed (h : c.Reads text p.place) : (p.closed number c).Holds number text := by
  refine ⟨⟨c, p.place⟩, ?_, ?_⟩
  · rw [capture?, closed, List.lookup_cons_self]
  · rw [Capture.text, h.readTo?]
    rfl

theorem Holds.moved (h : p.Holds number text) (d : Cursor) : (p.moved d).Holds number text :=
  h

end Progress

namespace Expr

section References

variable {origin number : Nat} {fold : Bool} {p : Progress} {next : Progress → Option Progress}
  {text : List Char} {d : Cursor}

theorem run_backref_of_holds (h : p.Holds number text) :
    (backref [number] fold).run origin p next =
      (readText? fold text p.place).bind fun place => next (p.moved place) := by
  obtain ⟨capture, hcapture, rfl⟩ := h
  simp only [run, List.findSome?_cons, hcapture]

theorem run_backref_of_reads (h : p.Holds number text) (hreads : p.place.Reads text d) :
    (backref [number] fold).run origin p next = next (p.moved d) := by
  rw [run_backref_of_holds h, readText?_of_reads hreads]
  rfl

theorem run_backref_of_ne {char : Char} (h : p.Holds number (char :: text))
    (hne : codeAfter? p.place ≠ some char.toNat) :
    (backref [number] false).run origin p next = none := by
  rw [run_backref_of_holds h, readText?]
  split
  next found d hnext =>
    rw [codeAfter?, (Cursor.next?_eq_some_iff.mp hnext).1] at hne
    have hother : sameChar false char found = false := by
      simp only [sameChar, Bool.false_and, Bool.or_false, beq_eq_false_iff_ne]
      rintro rfl
      exact hne rfl
    rw [hother]
    rfl
  next => rfl

end References

end Expr

/-- Progress goes onward, and nothing changes but the place. -/
def Progress.Passes (p q : Progress) : Prop :=
  ∃ d, p.place ≤ d ∧ q = p.moved d

namespace Progress

theorem Passes.refl (p : Progress) : p.Passes p :=
  ⟨p.place, Cursor.le_refl _, rfl⟩

theorem Passes.trans {p q r : Progress} (h : p.Passes q) (h' : q.Passes r) : p.Passes r := by
  obtain ⟨d, hle, rfl⟩ := h
  obtain ⟨e, hle', rfl⟩ := h'
  exact ⟨e, Cursor.le_trans hle hle', rfl⟩

end Progress

namespace Expr

/-- However an expression matches, it changes nothing but the place. -/
def Quiet (e : Expr) : Prop :=
  ∀ origin, Matcher.Respects Progress.Passes (e.run origin)

section Quiet

variable {a b body : Expr}

theorem quiet_one (of : CharClass) : (one of).Quiet := by
  intro origin p next r h
  rw [run] at h
  split at h
  next char d hnext =>
    split at h
    next => exact ⟨_, ⟨d, Cursor.le_of_next? hnext, rfl⟩, h⟩
    next => cases h
  next => cases h

theorem quiet_anchor (condition : Anchor) : (anchor condition).Quiet := by
  intro origin p next r h
  rw [run, Option.ite_none_right_eq_some] at h
  exact ⟨p, .refl p, h.2⟩

theorem Quiet.seq (h : a.Quiet) (h' : b.Quiet) : (seq a b).Quiet := by
  intro origin p next r hrun
  obtain ⟨q, hq, hrest⟩ := h origin p _ r hrun
  obtain ⟨q', hq', hnext⟩ := h' origin q next r hrest
  exact ⟨q', hq.trans hq', hnext⟩

theorem Quiet.alt (h : a.Quiet) (h' : b.Quiet) : (alt a b).Quiet := by
  intro origin p next r hrun
  rw [run] at hrun
  exact (eq_some_of_orElse hrun).elim (h origin p next r) (h' origin p next r)

theorem Quiet.star (h : body.Quiet) (greedy : Bool) : (repeated body 0 none greedy).Quiet :=
  fun origin => (h origin).star Progress.Passes.refl Progress.Passes.trans greedy

end Quiet

end Expr

end Highlight.Regex
