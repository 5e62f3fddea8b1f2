import Highlight.Grammar.Basic

/-!
What a registry holds: grammars and synonyms, each under its name (`Table.find?_insert`).
-/

namespace Highlight

structure Table (α : Type) where
  entries : List (String × α)

namespace Table

variable {α : Type}

def empty : Table α :=
  ⟨[]⟩

def find? (t : Table α) (key : String) : Option α :=
  t.entries.lookup key

def contains (t : Table α) (key : String) : Bool :=
  (t.find? key).isSome

def size (t : Table α) : Nat :=
  t.entries.length

def keys (t : Table α) : List String :=
  t.entries.map (·.1)

def insert (t : Table α) (key : String) (value : α) : Table α :=
  ⟨go t.entries⟩
where
  go : List (String × α) → List (String × α)
    | [] => [(key, value)]
    | (k, v) :: rest => if key == k then (key, value) :: rest else (k, v) :: go rest

def insertNew (t : Table α) (key : String) (value : α) : Table α :=
  if t.contains key then t else t.insert key value

private theorem lookup_go (key : String) (value : α) (other : String) (xs : List (String × α)) :
    (insert.go key value xs).lookup other =
      if other = key then some value else xs.lookup other := by
  induction xs with
  | nil =>
      rw [insert.go, List.lookup_cons]
      by_cases h : other = key
      · simp [h]
      · simp [h, beq_false_of_ne h]
  | cons entry rest ih =>
      obtain ⟨k, v⟩ := entry
      rw [insert.go, List.lookup_cons]
      by_cases hkey : key = k
      · subst hkey
        by_cases h : other = key
        · simp [h]
        · simp [h, List.lookup_cons, beq_false_of_ne h]
      · rw [beq_false_of_ne hkey, if_neg Bool.false_ne_true, List.lookup_cons, ih]
        by_cases hk : other = k
        · subst hk
          simp [Ne.symm hkey]
        · simp [beq_false_of_ne hk]

theorem find?_insert (t : Table α) (key : String) (value : α) (other : String) :
    (t.insert key value).find? other = if other = key then some value else t.find? other :=
  lookup_go key value other t.entries

theorem find?_insertNew (t : Table α) (key : String) (value : α) (other : String) :
    (t.insertNew key value).find? other =
      if other = key then some ((t.find? key).getD value) else t.find? other := by
  unfold insertNew contains
  cases h : t.find? key with
  | none => simp [find?_insert]
  | some found =>
      by_cases hother : other = key
      · simp [hother, h]
      · simp [hother]

end Table

/-- The grammars that have been published under their names, and other names for them. -/
structure Store where
  grammars : Table Grammar
  synonyms : Table String

namespace Store

def empty : Store :=
  ⟨.empty, .empty⟩

def find? (s : Store) (name : String) : Option Grammar :=
  s.grammars.find? name

def contains (s : Store) (name : String) : Bool :=
  s.grammars.contains name

def names (s : Store) : List String :=
  s.grammars.keys.mergeSort fun a b => decide (a ≤ b)

end Store

end Highlight
