import Highlight.Proofs.Regex.Progress
import Highlight.Regex.Compiled

/-!
What searches find. A match lies in the text from the place of the search on, with all of its
ends between characters (`Regex.fits_of_search?`). An expression that neither asks where the
search started nor moves the start of the match is steady: at each place it has a match of its
own, and a search finds the first of them (`Regex.search?_of_isSteady`).
-/

namespace Highlight.Regex

/-- The ends of a match and of its groups lie between characters of a text. -/
structure Match.Fits (text : List Char) (m : Match) : Prop where
  start : Text.Boundary text m.start
  stop : Text.Boundary text m.stop
  groupEnd : ∀ {number bytes : Nat}, m.groupEnd? number = some bytes → Text.Boundary text bytes

theorem Match.fits_ofProgress {c : Cursor} {p : Progress} (hp : p.Within c.text) :
    (Match.ofProgress c p).Fits c.text := by
  have hc : Text.Boundary c.text c.offset := Cursor.boundary_offset rfl
  have hplace : Text.Boundary c.text p.place.offset := Cursor.boundary_offset hp.place
  refine ⟨?_, hplace, ?_⟩
  · refine Text.Boundary.min ?_ hplace
    split
    next place hkeep => exact hc.max (Cursor.boundary_offset (hp.keep place hkeep))
    next => exact hc
  · intro number bytes hgroup
    obtain ⟨capture, hlookup, rfl⟩ := Option.map_eq_some_iff.mp hgroup
    obtain ⟨newer, older, happend, -⟩ := List.lookup_eq_some_iff.mp hlookup
    have hgroups : p.groups = newer ++ (number, capture) :: older := happend
    have hmem : (number, capture) ∈ p.groups := by simp [hgroups]
    exact Cursor.boundary_offset (hp.groups _ hmem)

namespace Expr

theorem fits_of_matchAt? {e : Expr} {origin : Nat} {c : Cursor} {m : Match}
    (h : e.matchAt? origin c = some m) : c.offset ≤ m.start ∧ m.Fits c.text := by
  obtain ⟨p, hrun, rfl⟩ := Option.map_eq_some_iff.mp h
  obtain ⟨hp, hle⟩ := run_onward (Progress.within_ofPlace c) hrun
  refine ⟨?_, Match.fits_ofProgress hp⟩
  refine Nat.le_min.mpr ⟨?_, hle⟩
  split
  · exact Nat.le_max_left _ _
  · exact Nat.le_refl _

/-- Whether an expression asks where the search started. -/
def asksOrigin : Expr → Bool
  | .anchor condition => condition == .searchStart
  | .empty | .one _ | .backref _ _ | .keep => false
  | .seq a b | .alt a b => a.asksOrigin || b.asksOrigin
  | .group _ body | .atomic body | .ahead _ body | .behind _ body | .repeated body _ _ _ =>
      body.asksOrigin

theorem run_eq_of_not_asksOrigin {e : Expr} (he : e.asksOrigin = false) (origin other : Nat) :
    e.run origin = e.run other := by
  induction e with
  | anchor condition =>
      funext p next
      cases condition with
      | searchStart => simp [asksOrigin] at he
      | _ => rfl
  | empty | one _ | backref _ _ | keep => rfl
  | seq a b iha ihb | alt a b iha ihb =>
      simp only [asksOrigin, Bool.or_eq_false_iff] at he
      funext p next
      simp only [Expr.run, iha he.1, ihb he.2]
  | group _ _ ih | atomic _ ih | ahead _ _ ih | behind _ _ ih | repeated _ _ _ _ ih =>
      funext p next
      simp only [Expr.run, ih he]

theorem start_of_matchAt? {e : Expr} (he : e.keeps = false) {origin : Nat} {c : Cursor}
    {m : Match} (h : e.matchAt? origin c = some m) : m.start = c.offset := by
  obtain ⟨p, hrun, rfl⟩ := Option.map_eq_some_iff.mp h
  have hkeep : p.keep = none := keep_run he hrun
  have hle := (run_onward (Progress.within_ofPlace c) hrun).2
  simp only [Match.ofProgress, hkeep]
  exact Nat.min_eq_left hle

end Expr

theorem fits_of_search? {r : Regex} {c : Cursor} {m : Match} (h : r.search? c = some m) :
    c.offset ≤ m.start ∧ m.Fits c.text := by
  rw [search?, Expr.search?, Expr.searchFrom?_eq_findSome?] at h
  obtain ⟨place, hmem, hmatch⟩ := List.exists_of_findSome?_eq_some h
  have hle : c ≤ place := Cursor.mem_onward_iff.mp hmem
  obtain ⟨hstart, hfits⟩ := Expr.fits_of_matchAt? hmatch
  rw [Cursor.text_eq_of_le hle] at hfits
  exact ⟨Nat.le_trans (Cursor.offset_le_of_le hle) hstart, hfits⟩

/-- Whether what a regex matches at a place is the same in every search that comes there, and
begins right there. -/
def isSteady (r : Regex) : Bool :=
  !r.program.expr.asksOrigin && !r.program.expr.keeps

theorem search?_of_isSteady {r : Regex} (h : r.isSteady = true) (c : Cursor) :
    r.search? c = c.onward.findSome? (r.program.expr.matchAt? 0) := by
  simp only [isSteady, Bool.and_eq_true, Bool.not_eq_true'] at h
  have horigin : r.program.expr.matchAt? c.offset = r.program.expr.matchAt? 0 := by
    funext place
    rw [Expr.matchAt?, Expr.matchAt?, Expr.run_eq_of_not_asksOrigin h.1 c.offset 0]
  rw [search?, Expr.search?, Expr.searchFrom?_eq_findSome?, horigin]

end Highlight.Regex
