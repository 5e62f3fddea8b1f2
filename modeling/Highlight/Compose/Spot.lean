/-!
The first element of a list that meets a condition, in its place.
-/

namespace Highlight

/-- An element of a list, with the elements on both sides of it. -/
structure Spot (α : Type) where
  before : List α
  value : α
  after : List α

namespace Spot

variable {α : Type}

def find? (p : α → Bool) : List α → Option (Spot α)
  | [] => none
  | a :: rest =>
      if p a then some ⟨[], a, rest⟩
      else (find? p rest).map fun spot => { spot with before := a :: spot.before }

def fill (spot : Spot α) (a : α) : List α :=
  spot.before ++ a :: spot.after

theorem fill_value_of_find? {p : α → Bool} {xs : List α} {spot : Spot α}
    (h : find? p xs = some spot) : spot.fill spot.value = xs := by
  induction xs generalizing spot with
  | nil => cases h
  | cons a rest ih =>
      rw [find?] at h
      split at h
      · cases h
        rfl
      · obtain ⟨inner, hinner, rfl⟩ := Option.map_eq_some_iff.mp h
        simpa [fill] using ih hinner

theorem map_value_find? (p : α → Bool) (xs : List α) :
    (find? p xs).map (·.value) = xs.find? p := by
  induction xs with
  | nil => rfl
  | cons a rest ih =>
      by_cases h : p a = true
      · simp [find?, h]
      · simp only [find?, h, List.find?_cons]
        rw [← ih]
        simp [Function.comp_def]

end Spot

end Highlight
