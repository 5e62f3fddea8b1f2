import Highlight.Text.Width

/-!
Places in a text. A cursor keeps the text on both sides of it, so that it can be looked at in
both directions; reading up to an offset succeeds exactly at the boundaries of characters
(`readTo?_eq_some_iff`).
-/

namespace Highlight

/-- A place between two characters of a text: the characters before it, nearest first, and those
after it. The byte offset and the number of characters left are kept beside them. -/
structure Cursor where
  before : List Char
  after : List Char
  offset : Nat
  left : Nat
  offset_eq : offset = Text.width before
  left_eq : left = after.length

namespace Cursor

theorem ext {c d : Cursor} (hbefore : c.before = d.before) (hafter : c.after = d.after) :
    c = d := by
  obtain ⟨before, after, offset, left, hoffset, hleft⟩ := c
  obtain ⟨before', after', offset', left', hoffset', hleft'⟩ := d
  simp only at hbefore hafter
  subst hbefore hafter hoffset hoffset' hleft hleft'
  rfl

def start (text : List Char) : Cursor :=
  ⟨[], text, 0, text.length, rfl, rfl⟩

def text (c : Cursor) : List Char :=
  c.before.reverse ++ c.after

/-- The place behind the characters `front`, which stand right after `c` and in front of
`back`. -/
def past (c : Cursor) (front back : List Char) (h : c.after = front ++ back) : Cursor where
  before := front.reverse ++ c.before
  after := back
  offset := c.offset + Text.width front
  left := c.left - front.length
  offset_eq := by
    rw [Text.width_append, Text.width_reverse, c.offset_eq, Nat.add_comm]
  left_eq := by
    rw [c.left_eq, h, List.length_append, Nat.add_sub_cancel_left]

def next? (c : Cursor) : Option (Char × Cursor) :=
  match h : c.after with
  | [] => none
  | char :: rest => some (char, c.past [char] rest h)

/-- Read up to a byte offset. There is nothing to read up to a place before the cursor, inside a
character or behind the end. -/
def readTo? (c : Cursor) (stop : Nat) : Option (List Char × Cursor) :=
  if c.offset ≤ stop then
    match h : Text.split? c.after (stop - c.offset) with
    | some (front, back) => some (front, c.past front back (Text.split?_eq_some_iff.mp h).1)
    | none => none
  else
    none

@[simp] theorem past_before (c : Cursor) (front back : List Char) (h : c.after = front ++ back) :
    (c.past front back h).before = front.reverse ++ c.before := rfl

@[simp] theorem past_after (c : Cursor) (front back : List Char) (h : c.after = front ++ back) :
    (c.past front back h).after = back := rfl

@[simp] theorem past_offset (c : Cursor) (front back : List Char) (h : c.after = front ++ back) :
    (c.past front back h).offset = c.offset + Text.width front := rfl

theorem next?_eq_some_iff {c d : Cursor} {char : Char} :
    c.next? = some (char, d) ↔ c.after = char :: d.after ∧ d.before = char :: c.before := by
  unfold next?
  constructor
  · intro h
    split at h
    · simp at h
    · next hafter =>
        simp only [Option.some.injEq, Prod.mk.injEq] at h
        obtain ⟨rfl, rfl⟩ := h
        simp [hafter]
  · rintro ⟨hafter, hbefore⟩
    split
    · next hnil => simp [hnil] at hafter
    · next char' rest hcons =>
        rw [hcons] at hafter
        obtain ⟨rfl, rfl⟩ := List.cons.inj hafter
        exact congrArg (fun place => some (char', place)) (ext (by simp [hbefore]) (by simp))

theorem next?_eq_none_iff {c : Cursor} : c.next? = none ↔ c.after = [] := by
  unfold next?
  split
  · next hnil => simp [hnil]
  · next hcons => simp [hcons]

theorem length_after_next? {c d : Cursor} {char : Char} (h : c.next? = some (char, d)) :
    d.after.length < c.after.length := by
  rw [(next?_eq_some_iff.mp h).1]
  simp

theorem readTo?_eq_some_iff {c d : Cursor} {stop : Nat} {front : List Char} :
    c.readTo? stop = some (front, d) ↔
      c.after = front ++ d.after ∧ d.before = front.reverse ++ c.before ∧ d.offset = stop := by
  unfold readTo?
  constructor
  · intro h
    split at h
    next hle =>
      split at h
      next front' back hsplit =>
        simp only [Option.some.injEq, Prod.mk.injEq] at h
        obtain ⟨rfl, rfl⟩ := h
        obtain ⟨hafter, hwidth⟩ := Text.split?_eq_some_iff.mp hsplit
        refine ⟨hafter, rfl, ?_⟩
        rw [past_offset, hwidth]
        omega
      next => simp at h
    next => simp at h
  · rintro ⟨hafter, hbefore, hoffset⟩
    have hwidth : d.offset = c.offset + Text.width front := by
      rw [d.offset_eq, c.offset_eq, hbefore, Text.width_append, Text.width_reverse, Nat.add_comm]
    have hle : c.offset ≤ stop := by omega
    have hfront : Text.split? c.after (stop - c.offset) = some (front, d.after) :=
      Text.split?_eq_some_iff.mpr ⟨hafter, by omega⟩
    rw [if_pos hle]
    split
    next front' back hsplit =>
      rw [hfront] at hsplit
      simp only [Option.some.injEq, Prod.mk.injEq] at hsplit
      obtain ⟨rfl, rfl⟩ := hsplit
      exact congrArg (fun place => some (front, place)) (ext (by simp [hbefore]) (by simp))
    next hnone => simp [hfront] at hnone

theorem length_after_readTo? {c d : Cursor} {stop : Nat} {front : List Char}
    (h : c.readTo? stop = some (front, d)) (hlt : c.offset < stop) :
    d.after.length < c.after.length := by
  obtain ⟨hafter, hbefore, hoffset⟩ := readTo?_eq_some_iff.mp h
  have hwidth : d.offset = c.offset + Text.width front := by
    rw [d.offset_eq, c.offset_eq, hbefore, Text.width_append, Text.width_reverse, Nat.add_comm]
  have hfront : front ≠ [] := by
    rintro rfl
    simp only [Text.width_nil] at hwidth
    omega
  have hlength : 0 < front.length := List.length_pos_iff.mpr hfront
  rw [hafter, List.length_append]
  omega

/-- Every place from here to the end of the text, in that order. -/
def onward (c : Cursor) : List Cursor :=
  match _h : c.next? with
  | none => [c]
  | some (_, d) => c :: d.onward
termination_by c.after.length
decreasing_by exact length_after_next? ‹_›

/-- The place before the last character that stands before this one. -/
def previous? (c : Cursor) : Option Cursor :=
  match h : c.before with
  | [] => none
  | char :: rest => some {
      before := rest
      after := char :: c.after
      offset := c.offset - char.utf8Size
      left := c.left + 1
      offset_eq := by rw [c.offset_eq, h, Text.width_cons, Nat.add_sub_cancel_left]
      left_eq := by rw [c.left_eq, List.length_cons] }

theorem previous?_eq_some_iff {c d : Cursor} :
    c.previous? = some d ↔ ∃ char, c.before = char :: d.before ∧ d.after = char :: c.after := by
  unfold previous?
  constructor
  · intro h
    split at h
    · simp at h
    · next char rest hbefore =>
        cases h
        exact ⟨char, hbefore, rfl⟩
  · rintro ⟨char, hbefore, hafter⟩
    split
    · next hnil => simp [hnil] at hbefore
    · next char' rest hcons =>
        rw [hcons] at hbefore
        obtain ⟨rfl, rfl⟩ := List.cons.inj hbefore
        exact congrArg some (ext rfl hafter.symm)

theorem length_before_previous? {c d : Cursor} (h : c.previous? = some d) :
    d.before.length < c.before.length := by
  obtain ⟨char, hbefore, -⟩ := previous?_eq_some_iff.mp h
  rw [hbefore]
  simp

/-- Every place from here back to the start of the text, in that order. -/
def backward (c : Cursor) : List Cursor :=
  match _h : c.previous? with
  | none => [c]
  | some d => c :: d.backward
termination_by c.before.length
decreasing_by exact length_before_previous? ‹_›

end Cursor

end Highlight
