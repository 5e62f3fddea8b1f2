import Highlight.Text.Width
import Highlight.Tree.Leaves

/-!
Trees that spell out a text. Their nodes give the text piece by piece, and so do the children of
each node with its own piece. Hence the ranges tile the text, each node holds the part of the
text at its range (`Spells.slice?_of_occursIn`), and the leaves give back the text
(`Spells.concatText_eq`).
-/

namespace Highlight

/-- The part of a text between two byte offsets. There is none unless both lie between
characters. -/
def Text.slice? (text : List Char) (start stop : Nat) : Option (List Char) := do
  let (_, back) ← split? text start
  let (middle, _) ← split? back (stop - start)
  return middle

theorem Text.slice?_append (front middle back : List Char) :
    slice? (front ++ middle ++ back) (width front) (width front + width middle) =
      some middle := by
  have hback : split? (front ++ middle ++ back) (width front) = some (front, middle ++ back) := by
    rw [List.append_assoc, split?_append]
  have hmiddle : split? (middle ++ back) (width middle) = some (middle, back) :=
    split?_append middle back
  simp only [slice?, hback, Option.bind_eq_bind, Option.bind_some, Nat.add_sub_cancel_left,
    hmiddle]
  rfl

/-- Ranges that follow one another from one offset to another, without gap or overlap. -/
def TextRange.Tile : Nat → List TextRange → Nat → Prop
  | start, [], stop => start = stop
  | start, range :: rest, stop => range.start.toNat = start ∧ Tile range.stop.toNat rest stop

namespace Node

/-- A node stands among some nodes or below them, at any depth. -/
inductive OccursIn (node : Node) : List Node → Prop
  | top {nodes : List Node} (mem : node ∈ nodes) : OccursIn node nodes
  | inside {nodes : List Node} {parent : Node} (mem : parent ∈ nodes)
      (occurs : OccursIn node parent.children) : OccursIn node nodes

/-- A node holds a text, which is not empty, and the range of that text at an offset. -/
structure Covers (base : Nat) (text : List Char) (node : Node) : Prop where
  text_eq : node.text = String.ofList text
  ne_nil : text ≠ []
  start_eq : node.range.start.toNat = base
  stop_eq : node.range.stop.toNat = base + Text.width text

/-- Nodes that give the text at an offset piece by piece, with children that do the same. -/
inductive Spells : Nat → List Char → List Node → Prop
  | nil (base : Nat) : Spells base [] []
  | cons {base : Nat} {front back : List Char} {node : Node} {nodes : List Node}
      (covers : node.Covers base front)
      (children : node.children ≠ [] → Spells base front node.children)
      (rest : Spells (base + Text.width front) back nodes) :
      Spells base (front ++ back) (node :: nodes)

theorem leaves_of_children_eq_nil {node : Node} (h : node.children = []) :
    node.leaves = [node] := by
  cases node with
  | literal text range => rw [leaves]
  | matched token =>
      obtain ⟨name, label, text, range, children⟩ := token
      replace h : children = [] := h
      subst h
      rw [leaves, leavesMatched]

theorem leaves_of_children_ne_nil {node : Node} (h : node.children ≠ []) :
    node.leaves = leavesOf node.children := by
  cases node with
  | literal text range => exact absurd rfl h
  | matched token =>
      obtain ⟨name, label, text, range, children⟩ := token
      cases children with
      | nil => exact absurd rfl h
      | cons child rest =>
          rw [leaves, leavesMatched]
          rfl

namespace Spells

variable {base : Nat} {text : List Char} {nodes : List Node}

theorem concatText_eq (h : Spells base text nodes) : concatText nodes = String.ofList text := by
  induction h with
  | nil => rfl
  | @cons base front back node rest covers children _ ihchildren ihrest =>
      have hnode : String.join (node.leaves.map (·.text)) = String.ofList front := by
        by_cases hnil : node.children = []
        · rw [leaves_of_children_eq_nil hnil, List.map_singleton, String.join_cons,
            String.join_nil, String.append_empty, covers.text_eq]
        · rw [leaves_of_children_ne_nil hnil]
          exact ihchildren hnil
      rw [concatText, leavesOf, List.map_append, String.join_append, hnode, String.ofList_append]
      exact congrArg _ ihrest

theorem ne_nil (h : Spells base text nodes) (hne : text ≠ []) : nodes ≠ [] := by
  cases h with
  | nil => exact absurd rfl hne
  | cons => simp

/-- There are no more nodes than characters. -/
theorem length_le (h : Spells base text nodes) : nodes.length ≤ text.length := by
  induction h with
  | nil => exact Nat.le_refl _
  | cons covers _ _ _ ihrest =>
      have hpos := List.length_pos_iff.mpr covers.ne_nil
      rw [List.length_cons, List.length_append]
      omega

theorem tile (h : Spells base text nodes) :
    TextRange.Tile base (nodes.map (·.range)) (base + Text.width text) := by
  induction h with
  | nil => rfl
  | cons covers _ _ _ ihrest =>
      rw [List.map_cons, Text.width_append, ← Nat.add_assoc]
      refine ⟨covers.start_eq, ?_⟩
      rw [covers.stop_eq]
      exact ihrest

/-- Each node, at any depth, covers a piece of the text and is spelt out by its children. -/
theorem exists_covers_of_occursIn {node : Node} (h : Spells base text nodes)
    (hoccurs : node.OccursIn nodes) :
    ∃ front middle back, text = front ++ middle ++ back ∧
      node.Covers (base + Text.width front) middle ∧
      (node.children ≠ [] → Spells (base + Text.width front) middle node.children) := by
  induction h with
  | nil =>
      cases hoccurs with
      | top hmem => simp at hmem
      | inside hmem => simp at hmem
  | @cons base first others parent rest covers children _ ihchildren ihrest =>
      -- The node is the first one, or below it, or it occurs among the others.
      have hcases : node = parent ∨ node.OccursIn parent.children ∨ node.OccursIn rest := by
        cases hoccurs with
        | top hmem => exact (List.mem_cons.mp hmem).imp id fun hmem => .inr (.top hmem)
        | inside hmem hbelow =>
            rcases List.mem_cons.mp hmem with rfl | hmem
            · exact .inr (.inl hbelow)
            · exact .inr (.inr (.inside hmem hbelow))
      rcases hcases with rfl | hbelow | hrest
      · exact ⟨[], first, others, rfl, covers, children⟩
      · have hne : parent.children ≠ [] := by
          intro hnil
          rw [hnil] at hbelow
          cases hbelow with
          | top hmem => simp at hmem
          | inside hmem => simp at hmem
        obtain ⟨front, middle, back, happend, hcovers, hspells⟩ := ihchildren hne hbelow
        exact ⟨front, middle, back ++ others, by simp [happend], hcovers, hspells⟩
      · obtain ⟨front, middle, back, happend, hcovers, hspells⟩ := ihrest hrest
        refine ⟨first ++ front, middle, back, by simp [happend], ?_⟩
        rw [Text.width_append, ← Nat.add_assoc]
        exact ⟨hcovers, hspells⟩

theorem slice?_of_occursIn {node : Node} (h : Spells 0 text nodes)
    (hoccurs : node.OccursIn nodes) :
    Text.slice? text node.range.start.toNat node.range.stop.toNat = some node.text.toList := by
  obtain ⟨front, middle, back, rfl, hcovers, -⟩ := h.exists_covers_of_occursIn hoccurs
  rw [hcovers.start_eq, hcovers.stop_eq, hcovers.text_eq, String.toList_ofList, Nat.zero_add]
  exact Text.slice?_append front middle back

theorem tile_of_occursIn {node : Node} (h : Spells base text nodes)
    (hoccurs : node.OccursIn nodes) (hne : node.children ≠ []) :
    TextRange.Tile node.range.start.toNat (node.children.map (·.range))
      node.range.stop.toNat := by
  obtain ⟨front, middle, back, -, hcovers, hspells⟩ := h.exists_covers_of_occursIn hoccurs
  rw [hcovers.start_eq, hcovers.stop_eq]
  exact (hspells hne).tile

theorem length_children_of_occursIn {node : Node} (h : Spells base text nodes)
    (hoccurs : node.OccursIn nodes) : node.children.length ≤ node.text.length := by
  obtain ⟨front, middle, back, -, hcovers, hspells⟩ := h.exists_covers_of_occursIn hoccurs
  rw [hcovers.text_eq, String.length_ofList]
  by_cases hnil : node.children = []
  · simp [hnil]
  · exact (hspells hnil).length_le

theorem join_leaves_of_occursIn {node : Node} (h : Spells base text nodes)
    (hoccurs : node.OccursIn nodes) :
    String.join (node.leaves.map (·.text)) = node.text := by
  obtain ⟨front, middle, back, -, hcovers, hspells⟩ := h.exists_covers_of_occursIn hoccurs
  by_cases hnil : node.children = []
  · rw [leaves_of_children_eq_nil hnil, List.map_singleton, String.join_cons, String.join_nil,
      String.append_empty]
  · rw [leaves_of_children_ne_nil hnil, hcovers.text_eq]
    exact (hspells hnil).concatText_eq

end Spells

end Node

end Highlight
