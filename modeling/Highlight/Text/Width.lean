/-!
The size of texts in UTF-8, and cuts at byte offsets. A cut exists exactly where a front part of
that size does (`split?_eq_some_iff`).
-/

namespace Highlight.Text

/-- The number of bytes that a text takes in UTF-8. -/
def width : List Char → Nat
  | [] => 0
  | c :: rest => c.utf8Size + width rest

@[simp] theorem width_nil : width [] = 0 := rfl

@[simp] theorem width_cons (c : Char) (rest : List Char) :
    width (c :: rest) = c.utf8Size + width rest := rfl

theorem utf8Size_pos (c : Char) : 0 < c.utf8Size := Char.utf8Size_pos c

@[simp] theorem width_append (xs ys : List Char) :
    width (xs ++ ys) = width xs + width ys := by
  induction xs with
  | nil => simp
  | cons c xs ih => simp [ih, Nat.add_assoc]

@[simp] theorem width_reverse (xs : List Char) : width xs.reverse = width xs := by
  induction xs with
  | nil => rfl
  | cons c xs ih => simp [ih, Nat.add_comm]

theorem length_le_width (xs : List Char) : xs.length ≤ width xs := by
  induction xs with
  | nil => simp
  | cons c xs ih =>
      have hpos := utf8Size_pos c
      simp only [List.length_cons, width_cons]
      omega

theorem width_eq_zero_iff {xs : List Char} : width xs = 0 ↔ xs = [] := by
  constructor
  · intro h
    have hlength := length_le_width xs
    exact List.eq_nil_of_length_eq_zero (by omega)
  · rintro rfl
    rfl

/-- Cut a text after its first `bytes` bytes. There is no cut inside a character, nor behind
the end. -/
def split? : List Char → Nat → Option (List Char × List Char)
  | rest, 0 => some ([], rest)
  | [], _ + 1 => none
  | c :: rest, bytes + 1 =>
      if c.utf8Size ≤ bytes + 1 then
        (split? rest (bytes + 1 - c.utf8Size)).map fun (front, back) => (c :: front, back)
      else
        none

@[simp] theorem split?_zero (xs : List Char) : split? xs 0 = some ([], xs) := by
  cases xs <;> rfl

theorem split?_append (xs ys : List Char) : split? (xs ++ ys) (width xs) = some (xs, ys) := by
  induction xs with
  | nil => simp
  | cons c xs ih =>
      have hpos := utf8Size_pos c
      obtain ⟨n, hn⟩ : ∃ n, c.utf8Size + width xs = n + 1 :=
        ⟨c.utf8Size + width xs - 1, by omega⟩
      have hle : c.utf8Size ≤ n + 1 := by omega
      have hrest : n + 1 - c.utf8Size = width xs := by omega
      simp [hn, split?, hle, hrest, ih]

theorem eq_append_of_split?_eq_some {xs front back : List Char} {bytes : Nat}
    (h : split? xs bytes = some (front, back)) : xs = front ++ back ∧ width front = bytes := by
  induction xs generalizing bytes front with
  | nil =>
      cases bytes with
      | zero => simp_all
      | succ n => simp [split?] at h
  | cons c xs ih =>
      cases bytes with
      | zero =>
          simp only [split?_zero, Option.some.injEq, Prod.mk.injEq] at h
          obtain ⟨rfl, rfl⟩ := h
          simp
      | succ n =>
          rw [split?] at h
          split at h
          next hle =>
            obtain ⟨⟨front', back'⟩, hsplit, heq⟩ := Option.map_eq_some_iff.mp h
            simp only [Prod.mk.injEq] at heq
            obtain ⟨rfl, rfl⟩ := heq
            obtain ⟨rfl, hwidth⟩ := ih hsplit
            exact ⟨rfl, by simp only [width_cons, hwidth]; omega⟩
          next => simp at h

/-- A cut at `bytes` exists exactly where a front part of that width does. -/
theorem split?_eq_some_iff {xs front back : List Char} {bytes : Nat} :
    split? xs bytes = some (front, back) ↔ xs = front ++ back ∧ width front = bytes := by
  constructor
  · exact eq_append_of_split?_eq_some
  · rintro ⟨rfl, rfl⟩
    exact split?_append front back

end Highlight.Text
