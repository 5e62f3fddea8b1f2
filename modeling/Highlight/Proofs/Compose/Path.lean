import Highlight.Compose.Path

/-!
Where paths are cut. What follows the last slash of a path is its last name, and the names before
it lead to the grammar in which that one is looked up (`Path.segments_append`). A path without a
slash is a single name.
-/

namespace Highlight.Path

theorem cut_of_not_mem {text : List Char} (h : '/' ∉ text) : cut text = (text, []) := by
  induction text with
  | nil => rfl
  | cons c text ih =>
      obtain ⟨hne, hrest⟩ := List.ne_and_not_mem_of_not_mem_cons h
      rw [cut, ih hrest]
      simp [Ne.symm hne]

theorem cut_append {text last : List Char} (h : '/' ∉ last) :
    cut (text ++ '/' :: last) = ((cut text).1, (cut text).2 ++ [last]) := by
  induction text with
  | nil => simp [cut, cut_of_not_mem h]
  | cons c text ih =>
      rw [List.cons_append, cut, ih, cut]
      by_cases hc : c = '/'
      · simp [hc]
      · simp [hc]

theorem segments_of_not_mem {path : String} (h : '/' ∉ path.toList) : segments path = [path] := by
  simp [segments, cut_of_not_mem h]

theorem segments_append (path : String) {name : String} (h : '/' ∉ name.toList) :
    segments (path ++ "/" ++ name) = segments path ++ [name] := by
  have htext : (path ++ "/" ++ name).toList = path.toList ++ '/' :: name.toList := by simp
  rw [segments, htext, cut_append h]
  simp [segments]

theorem segments_ne_nil (path : String) : segments path ≠ [] := by
  simp [segments]

theorem segments_eq (path : String) : segments path = owners path ++ [last path] := by
  have hlast : last path = (segments path).getLast (segments_ne_nil path) := by
    rw [last, List.getLastD_eq_getLast?, List.getLast?_eq_some_getLast (segments_ne_nil path)]
    rfl
  rw [owners, hlast, List.dropLast_concat_getLast]

theorem owners_of_not_mem {path : String} (h : '/' ∉ path.toList) : owners path = [] := by
  simp [owners, segments_of_not_mem h]

theorem last_of_not_mem {path : String} (h : '/' ∉ path.toList) : last path = path := by
  simp [last, segments_of_not_mem h]

theorem owners_append (path : String) {name : String} (h : '/' ∉ name.toList) :
    owners (path ++ "/" ++ name) = segments path := by
  simp [owners, segments_append path h]

theorem last_append (path : String) {name : String} (h : '/' ∉ name.toList) :
    last (path ++ "/" ++ name) = name := by
  simp [last, segments_append path h]

/-- A path that has slashes is cut at the last of them. -/
theorem exists_eq_append {path : String} (h : '/' ∈ path.toList) :
    ∃ owner name : String, path = owner ++ "/" ++ name ∧ '/' ∉ name.toList := by
  obtain ⟨after, before, heq, hnot⟩ := List.eq_append_cons_of_mem (List.mem_reverse.mpr h)
  refine ⟨String.ofList before.reverse, String.ofList after.reverse, ?_, by simpa using hnot⟩
  have htext : path.toList = before.reverse ++ '/' :: after.reverse := by
    simpa using congrArg List.reverse heq
  apply String.toList_injective
  simp [htext]

theorem owners_ne_nil {path : String} (h : '/' ∈ path.toList) : owners path ≠ [] := by
  obtain ⟨owner, name, rfl, hname⟩ := exists_eq_append h
  rw [owners_append owner hname]
  exact segments_ne_nil owner

end Highlight.Path
