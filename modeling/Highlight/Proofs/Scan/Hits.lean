import Highlight.Proofs.Regex.Search
import Highlight.Scan.Rule

/-!
What is known of hits. A hit lies in the text from the place of its search on; of the way to search
this takes no more than that its matches do (`Regex.LawfulSearcher`). What is said of scans and of
tokenizing by any grammar rests on this alone, and holds with every such way to search. A search is
steady if each place has a hit of its own or none, whatever the search has come through; what a
steady search has found answers for all places up to the hit (`Steady.eq_some_of_le`).
-/

namespace Highlight

/-- The ends of a hit and of its context lie between characters of a text. -/
structure Hit.Fits (text : List Char) (hit : Hit) : Prop where
  start : Text.Boundary text hit.start
  contextEnd : Text.Boundary text hit.contextEnd
  stop : Text.Boundary text hit.stop

theorem Regex.Match.Fits.ofMatch {text : List Char} {m : Regex.Match} (h : m.Fits text)
    (lookbehind : Bool) : (Hit.ofMatch lookbehind m).Fits text := by
  refine ⟨h.start, ?_, h.stop⟩
  show Text.Boundary text (Hit.contextEndOf lookbehind m)
  unfold Hit.contextEndOf
  split
  next groupEnd hgroup => exact h.start.max ((h.groupEnd hgroup).min h.stop)
  next => exact h.start

/-- The matches that are found lie where they were sought, and they and their groups end between
characters. -/
class Regex.LawfulSearcher [Regex.Searcher] : Prop where
  onward : ∀ {r : Regex} {c : Cursor} {m : Regex.Match},
    Regex.Searcher.find? r c = some m → c.offset ≤ m.start
  fits : ∀ {r : Regex} {c : Cursor} {m : Regex.Match},
    Regex.Searcher.find? r c = some m → m.Fits c.text

instance Regex.lawful_searcher : Regex.LawfulSearcher where
  onward h := (Regex.fits_of_search? h).1
  fits h := (Regex.fits_of_search? h).2

theorem Pattern.fits_of_hit? [Regex.Searcher] [Regex.LawfulSearcher] {p : Pattern} {c : Cursor}
    {hit : Hit} (h : p.hit? c = some hit) : c.offset ≤ hit.start ∧ hit.Fits c.text := by
  obtain ⟨m, hsearch, rfl⟩ := Option.map_eq_some_iff.mp h
  exact ⟨Regex.LawfulSearcher.onward hsearch,
    (Regex.LawfulSearcher.fits hsearch).ofMatch p.lookbehind⟩

/-- A search finds the first hit from its place on, and whether there is a hit at a place does
not depend on where the search started. -/
def Steady (find : Cursor → Option Hit) : Prop :=
  ∃ hitAt : Cursor → Option Hit,
    (∀ c hit, hitAt c = some hit → hit.start = c.offset) ∧
      ∀ c, find c = c.onward.findSome? hitAt

namespace Steady

variable {find : Cursor → Option Hit} {c d : Cursor}

theorem eq_none_of_le (h : Steady find) (hle : c ≤ d) (hnone : find c = none) :
    find d = none := by
  obtain ⟨hitAt, -, hfind⟩ := h
  obtain ⟨passed, happend, -⟩ := Cursor.exists_onward_eq_append hle
  rw [hfind, List.findSome?_eq_none_iff] at hnone ⊢
  intro place hmem
  exact hnone place (by simp [happend, hmem])

theorem eq_some_of_le (h : Steady find) (hle : c ≤ d) {hit : Hit} (hsome : find c = some hit)
    (hstart : d.offset ≤ hit.start) : find d = some hit := by
  obtain ⟨hitAt, hitAt_start, hfind⟩ := h
  obtain ⟨passed, happend, hpassed⟩ := Cursor.exists_onward_eq_append hle
  have hnone : passed.findSome? hitAt = none := by
    cases hfound : passed.findSome? hitAt with
    | none => rfl
    | some found =>
        obtain ⟨place, hmem, hplace⟩ := List.exists_of_findSome?_eq_some hfound
        have hlt := hpassed place hmem
        have hsame : found = hit := by
          rw [hfind, happend, List.findSome?_append, hfound, Option.some_or] at hsome
          exact Option.some.inj hsome
        have hoffset := hitAt_start place found hplace
        subst hsame
        omega
  rw [hfind, happend, List.findSome?_append, hnone, Option.none_or, ← hfind] at hsome
  exact hsome

end Steady

namespace Pattern

variable {p : Pattern} {c : Cursor} {hit : Hit}

/-- The hit right at a place, found by a search that starts at the start of the text. -/
def hitHere? (p : Pattern) (c : Cursor) : Option Hit :=
  (p.regex.program.expr.matchAt? 0 c).map (Hit.ofMatch p.lookbehind)

theorem start_of_hitHere? (h : p.regex.isSteady = true) (hhit : p.hitHere? c = some hit) :
    hit.start = c.offset := by
  simp only [Regex.isSteady, Bool.and_eq_true, Bool.not_eq_true'] at h
  obtain ⟨m, hmatch, rfl⟩ := Option.map_eq_some_iff.mp hhit
  exact Regex.Expr.start_of_matchAt? h.2 hmatch

theorem hit?_eq_findSome? (h : p.regex.isSteady = true) (c : Cursor) :
    p.hit? c = c.onward.findSome? p.hitHere? := by
  have hsearch : p.hit? c = (p.regex.search? c).map (Hit.ofMatch p.lookbehind) := rfl
  rw [hsearch, Regex.search?_of_isSteady h, List.map_findSome?]
  rfl

theorem steady_of_isSteady (h : p.regex.isSteady = true) : Steady p.hit? :=
  ⟨p.hitHere?, fun _ _ => start_of_hitHere? h, hit?_eq_findSome? h⟩

theorem hit?_of_hitHere? (h : p.regex.isSteady = true) (hhit : p.hitHere? c = some hit) :
    p.hit? c = some hit := by
  rw [hit?_eq_findSome? h, Cursor.onward]
  split
  · simp [hhit]
  · simp [hhit]

/-- What a steady search from a place finds right there is the hit of that place. -/
theorem hitHere?_of_hit? (h : p.regex.isSteady = true) (hhit : p.hit? c = some hit)
    (hstart : hit.start = c.offset) : p.hitHere? c = some hit := by
  rw [hit?_eq_findSome? h] at hhit
  obtain ⟨place, hmem, hplace⟩ := List.exists_of_findSome?_eq_some hhit
  have hoffset : place.offset = c.offset := (start_of_hitHere? h hplace).symm.trans hstart
  rwa [Cursor.eq_of_le_of_offset_eq (Cursor.mem_onward_iff.mp hmem) hoffset]

end Pattern

end Highlight
