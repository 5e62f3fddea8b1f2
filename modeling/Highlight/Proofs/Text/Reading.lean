import Highlight.Proofs.Text.Order

/-!
Characters between places. Reading composes (`Cursor.Reads.trans`), and where a text goes on with
some characters there is a place behind them (`Cursor.exists_reads`).
-/

namespace Highlight.Cursor

/-- The characters `front` stand between two places. -/
structure Reads (c : Cursor) (front : List Char) (d : Cursor) : Prop where
  after : c.after = front ++ d.after
  before : d.before = front.reverse ++ c.before

theorem exists_reads {c : Cursor} {front back : List Char} (h : c.after = front ++ back) :
    ∃ d, c.Reads front d ∧ d.after = back :=
  ⟨c.past front back h, ⟨h, rfl⟩, rfl⟩

theorem reads_nil (c : Cursor) : c.Reads [] c :=
  ⟨rfl, rfl⟩

theorem reads_single_iff {c d : Cursor} {char : Char} :
    c.Reads [char] d ↔ c.next? = some (char, d) := by
  rw [next?_eq_some_iff]
  exact ⟨fun h => ⟨h.after, h.before⟩, fun h => ⟨h.1, h.2⟩⟩

namespace Reads

variable {c d d' e : Cursor} {front back : List Char} {char : Char}

theorem trans (h : c.Reads front d) (h' : d.Reads back e) : c.Reads (front ++ back) e := by
  refine ⟨?_, ?_⟩
  · rw [h.after, h'.after, List.append_assoc]
  · rw [h'.before, h.before, List.reverse_append, List.append_assoc]

theorem exists_of_append (h : c.Reads (front ++ back) e) :
    ∃ d, c.Reads front d ∧ d.Reads back e := by
  have hafter : c.after = front ++ (back ++ e.after) := by rw [h.after, List.append_assoc]
  refine ⟨c.past front (back ++ e.after) hafter, ⟨hafter, rfl⟩, rfl, ?_⟩
  rw [h.before, past_before, List.reverse_append, List.append_assoc]

theorem exists_of_cons (h : c.Reads (char :: back) e) :
    ∃ d, c.Reads [char] d ∧ d.Reads back e :=
  exists_of_append h

theorem unique (h : c.Reads front d) (h' : c.Reads front d') : d = d' := by
  refine ext (by rw [h.before, h'.before]) ?_
  exact List.append_cancel_left (h.after.symm.trans h'.after)

theorem le (h : c.Reads front d) : c ≤ d :=
  ⟨front, h.after, h.before⟩

theorem eq_of_nil (h : c.Reads [] d) : d = c :=
  h.unique (reads_nil c)

theorem offset_eq (h : c.Reads front d) : d.offset = c.offset + Text.width front :=
  offset_eq_of_append h.before

theorem readTo? (h : c.Reads front d) : c.readTo? d.offset = some (front, d) :=
  readTo?_eq_some_iff.mpr ⟨h.after, h.before, rfl⟩

theorem left_lt (h : c.Reads front d) (hne : front ≠ []) : d.left < c.left := by
  have hpos := List.length_pos_iff.mpr hne
  rw [d.left_eq, c.left_eq, h.after, List.length_append]
  omega

theorem offset_lt (h : c.Reads front d) (hne : front ≠ []) : c.offset < d.offset := by
  have hpos := List.length_pos_iff.mpr hne
  have hle := Text.length_le_width front
  rw [h.offset_eq]
  omega

end Reads

end Highlight.Cursor
