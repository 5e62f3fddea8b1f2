import Highlight.Text.Cursor

/-!
The places of one text in their order. A place comes at or behind another one if reading on from
the latter leads to it; the offsets at which reading may stop are the boundaries between the
characters of the text (`exists_readTo?_iff`).
-/

namespace Highlight

/-- The offset `bytes` lies between two characters of a text, or at one of its ends. -/
def Text.Boundary (text : List Char) (bytes : Nat) : Prop :=
  ∃ front back, text = front ++ back ∧ width front = bytes

namespace Text.Boundary

theorem le_width {text : List Char} {bytes : Nat} (h : Boundary text bytes) :
    bytes ≤ width text := by
  obtain ⟨front, back, rfl, rfl⟩ := h
  simp

/-- A boundary of a text that fits behind a base fits there too. -/
theorem add_lt {text : List Char} {bytes base limit : Nat} (h : Boundary text bytes)
    (hlt : base + width text < limit) : base + bytes < limit :=
  Nat.lt_of_le_of_lt (Nat.add_le_add_left h.le_width base) hlt

theorem min {text : List Char} {m n : Nat} (hm : Boundary text m) (hn : Boundary text n) :
    Boundary text (min m n) := by
  rcases Nat.le_total m n with hle | hle
  · rwa [Nat.min_eq_left hle]
  · rwa [Nat.min_eq_right hle]

theorem max {text : List Char} {m n : Nat} (hm : Boundary text m) (hn : Boundary text n) :
    Boundary text (max m n) := by
  rcases Nat.le_total m n with hle | hle
  · rwa [Nat.max_eq_right hle]
  · rwa [Nat.max_eq_left hle]

end Text.Boundary

namespace Cursor

/-- `c ≤ d` means that reading on from `c` leads to `d`. -/
instance : LE Cursor where
  le c d := ∃ front, c.after = front ++ d.after ∧ d.before = front.reverse ++ c.before

protected theorem le_refl (c : Cursor) : c ≤ c :=
  ⟨[], rfl, rfl⟩

protected theorem le_trans {c d e : Cursor} (hcd : c ≤ d) (hde : d ≤ e) : c ≤ e := by
  obtain ⟨front, hafter, hbefore⟩ := hcd
  obtain ⟨front', hafter', hbefore'⟩ := hde
  exact ⟨front ++ front', by simp [hafter, hafter'], by simp [hbefore, hbefore']⟩

theorem text_eq_of_le {c d : Cursor} (h : c ≤ d) : d.text = c.text := by
  obtain ⟨front, hafter, hbefore⟩ := h
  simp [text, hafter, hbefore]

theorem offset_eq_of_append {c d : Cursor} {front : List Char}
    (hbefore : d.before = front.reverse ++ c.before) :
    d.offset = c.offset + Text.width front := by
  rw [d.offset_eq, c.offset_eq, hbefore, Text.width_append, Text.width_reverse, Nat.add_comm]

theorem offset_le_of_le {c d : Cursor} (h : c ≤ d) : c.offset ≤ d.offset := by
  obtain ⟨front, -, hbefore⟩ := h
  have hoffset := offset_eq_of_append hbefore
  omega

theorem eq_of_le_of_offset_eq {c d : Cursor} (h : c ≤ d) (hoffset : d.offset = c.offset) :
    c = d := by
  obtain ⟨front, hafter, hbefore⟩ := h
  have hwidth := offset_eq_of_append hbefore
  have hfront : front = [] := Text.width_eq_zero_iff.mp (by omega)
  subst hfront
  exact ext (by simpa using hbefore.symm) (by simpa using hafter)

theorem le_of_next? {c d : Cursor} {char : Char} (h : c.next? = some (char, d)) : c ≤ d := by
  obtain ⟨hafter, hbefore⟩ := next?_eq_some_iff.mp h
  exact ⟨[char], hafter, hbefore⟩

theorem offset_lt_of_next? {c d : Cursor} {char : Char} (h : c.next? = some (char, d)) :
    c.offset < d.offset := by
  have hwidth : d.offset = c.offset + Text.width [char] :=
    offset_eq_of_append (next?_eq_some_iff.mp h).2
  have hpos := Text.utf8Size_pos char
  simp only [Text.width_cons, Text.width_nil] at hwidth
  omega

theorem le_of_readTo? {c d : Cursor} {stop : Nat} {front : List Char}
    (h : c.readTo? stop = some (front, d)) : c ≤ d := by
  obtain ⟨hafter, hbefore, -⟩ := readTo?_eq_some_iff.mp h
  exact ⟨front, hafter, hbefore⟩

theorem offset_of_readTo? {c d : Cursor} {stop : Nat} {front : List Char}
    (h : c.readTo? stop = some (front, d)) : d.offset = stop :=
  (readTo?_eq_some_iff.mp h).2.2

theorem exists_offset_eq_iff {text : List Char} {bytes : Nat} :
    (∃ c : Cursor, c.text = text ∧ c.offset = bytes) ↔ Text.Boundary text bytes := by
  constructor
  · rintro ⟨c, rfl, rfl⟩
    exact ⟨c.before.reverse, c.after, rfl, by rw [Text.width_reverse, c.offset_eq]⟩
  · rintro ⟨front, back, rfl, rfl⟩
    exact ⟨(start (front ++ back)).past front back rfl, by simp [Cursor.text, start],
      by simp [start]⟩

theorem boundary_offset {text : List Char} {c : Cursor} (h : c.text = text) :
    Text.Boundary text c.offset :=
  exists_offset_eq_iff.mp ⟨c, h, rfl⟩

theorem boundary_of_readTo? {c d : Cursor} {stop : Nat} {front : List Char}
    (h : c.readTo? stop = some (front, d)) : Text.Boundary c.text stop :=
  offset_of_readTo? h ▸ boundary_offset (text_eq_of_le (le_of_readTo? h))

theorem offset_add_width_of_readTo? {c d : Cursor} {stop : Nat} {front : List Char}
    (h : c.readTo? stop = some (front, d)) : c.offset + Text.width front = stop := by
  obtain ⟨-, hbefore, hoffset⟩ := readTo?_eq_some_iff.mp h
  rw [← offset_eq_of_append hbefore, hoffset]

/-- Two places of one text are ordered as their offsets are. -/
theorem le_of_text_eq {c d : Cursor} (htext : c.text = d.text) (hoffset : c.offset ≤ d.offset) :
    c ≤ d := by
  have happend : c.before.reverse ++ c.after = d.before.reverse ++ d.after := htext
  rw [c.offset_eq, d.offset_eq, ← Text.width_reverse, ← Text.width_reverse d.before] at hoffset
  rcases List.append_eq_append_iff.mp happend with
    ⟨front, hbefore, hafter⟩ | ⟨front, hbefore, hafter⟩
  · exact ⟨front, hafter, by simpa using congrArg List.reverse hbefore⟩
  · have hfront : front = [] := by
      rw [hbefore, Text.width_append] at hoffset
      exact Text.width_eq_zero_iff.mp (by omega)
    subst hfront
    exact ⟨[], by simpa using hafter.symm, by simpa using (congrArg List.reverse hbefore).symm⟩

theorem eq_of_text_eq {c d : Cursor} (htext : c.text = d.text) (hoffset : c.offset = d.offset) :
    c = d :=
  eq_of_le_of_offset_eq (le_of_text_eq htext (Nat.le_of_eq hoffset)) hoffset.symm

/-- Reading on in a text to an offset comes to one place, wherever it began. -/
theorem eq_of_readTo? {c c' d d' : Cursor} {stop : Nat} {front front' : List Char}
    (htext : c.text = c'.text) (h : c.readTo? stop = some (front, d))
    (h' : c'.readTo? stop = some (front', d')) : d = d' := by
  apply eq_of_text_eq
  · rw [text_eq_of_le (le_of_readTo? h), htext, text_eq_of_le (le_of_readTo? h')]
  · rw [offset_of_readTo? h, offset_of_readTo? h']

/-- Reading from a place may stop at each boundary of the text that does not lie before it. -/
theorem exists_readTo?_iff {c : Cursor} {stop : Nat} :
    (∃ front d, c.readTo? stop = some (front, d)) ↔
      c.offset ≤ stop ∧ Text.Boundary c.text stop := by
  constructor
  · rintro ⟨front, d, h⟩
    have hle := le_of_readTo? h
    have hoffset := offset_of_readTo? h
    exact ⟨hoffset ▸ offset_le_of_le hle,
      exists_offset_eq_iff.mp ⟨d, text_eq_of_le hle, hoffset⟩⟩
  · rintro ⟨hle, hboundary⟩
    obtain ⟨d, htext, rfl⟩ := exists_offset_eq_iff.mpr hboundary
    obtain ⟨front, hafter, hbefore⟩ := le_of_text_eq htext.symm hle
    exact ⟨front, d, readTo?_eq_some_iff.mpr ⟨hafter, hbefore, rfl⟩⟩

theorem start_text (text : List Char) : (start text).text = text := by
  simp [Cursor.text, start]

/-- Each place of a text is come to from its start. -/
theorem readTo?_start (c : Cursor) :
    (start c.text).readTo? c.offset = some (c.before.reverse, c) :=
  readTo?_eq_some_iff.mpr ⟨rfl, by simp [start], rfl⟩

theorem eq_of_le_of_next?_eq_none {c d : Cursor} (h : c ≤ d) (hnext : c.next? = none) : c = d := by
  obtain ⟨front, hafter, hbefore⟩ := h
  have hnil : c.after = [] := next?_eq_none_iff.mp hnext
  rw [hnil] at hafter
  obtain ⟨rfl, hd⟩ := List.append_eq_nil_iff.mp hafter.symm
  exact ext (by simpa using hbefore.symm) (by rw [hnil, hd])

theorem eq_or_le_of_next? {c d e : Cursor} {char : Char} (h : c ≤ d)
    (hnext : c.next? = some (char, e)) : c = d ∨ e ≤ d := by
  obtain ⟨front, hafter, hbefore⟩ := h
  obtain ⟨hafter', hbefore'⟩ := next?_eq_some_iff.mp hnext
  cases front with
  | nil => exact .inl (ext (by simpa using hbefore.symm) (by simpa using hafter))
  | cons first front =>
      rw [hafter', List.cons_append] at hafter
      obtain ⟨rfl, hrest⟩ := List.cons.inj hafter
      exact .inr ⟨front, hrest, by simp [hbefore, hbefore']⟩

theorem mem_onward_iff {c d : Cursor} : d ∈ c.onward ↔ c ≤ d := by
  fun_induction onward c with
  | case1 c hnext =>
      rw [List.mem_singleton]
      constructor
      · rintro rfl
        exact Cursor.le_refl d
      · intro hle
        exact (eq_of_le_of_next?_eq_none hle hnext).symm
  | case2 c char e hnext ih =>
      rw [List.mem_cons, ih]
      constructor
      · rintro (rfl | hle)
        · exact Cursor.le_refl d
        · exact Cursor.le_trans (le_of_next? hnext) hle
      · intro hle
        exact (eq_or_le_of_next? hle hnext).imp Eq.symm id

/-- The places from `d` on come at the end of those from an earlier place on. -/
theorem exists_onward_eq_append {c d : Cursor} (h : c ≤ d) :
    ∃ passed, c.onward = passed ++ d.onward ∧ ∀ e ∈ passed, e.offset < d.offset := by
  fun_induction onward c with
  | case1 c hnext =>
      have heq := eq_of_le_of_next?_eq_none h hnext
      subst heq
      rw [onward]
      split
      · exact ⟨[], rfl, by simp⟩
      · simp_all
  | case2 c char e hnext ih =>
      rcases eq_or_le_of_next? h hnext with heq | hle
      · subst heq
        refine ⟨[], ?_, by simp⟩
        rw [List.nil_append, onward.eq_def c]
        split <;> simp_all
      · obtain ⟨passed, happend, hpassed⟩ := ih hle
        refine ⟨c :: passed, by rw [happend, List.cons_append], ?_⟩
        intro place hmem
        rcases List.mem_cons.mp hmem with rfl | hmem
        · exact Nat.lt_of_lt_of_le (offset_lt_of_next? hnext) (offset_le_of_le hle)
        · exact hpassed place hmem

theorem text_eq_of_mem_backward {c d : Cursor} (h : d ∈ c.backward) : d.text = c.text := by
  fun_induction backward c with
  | case1 c hprevious =>
      rw [List.mem_singleton.mp h]
  | case2 c e hprevious ih =>
      rcases List.mem_cons.mp h with rfl | hmem
      · rfl
      · obtain ⟨char, hbefore, hafter⟩ := previous?_eq_some_iff.mp hprevious
        rw [ih hmem]
        simp [text, hbefore, hafter]

end Cursor

end Highlight
