import Highlight.Proofs.Tree.Spelling

/-!
The walk along the leaves, call by call. What it still has to visit, level by level from the
innermost one out, stands for the leaves that it still has to give (`LeafWalk.remaining`). One
turn of its search keeps them or gives the first one, and makes the walk lighter. Hence each call
comes to an end, and the calls give the leaves in order and then nothing for ever
(`LeafWalk.after_yields_drop_leavesOf`).
-/

namespace Highlight

namespace Node

/-- Induction over nodes and their children. -/
theorem forest_induction {motive : List Node → Prop} (nil : motive [])
    (literal : ∀ text range rest, motive rest → motive (.literal text range :: rest))
    (matched : ∀ token rest, motive token.children → motive rest →
      motive (.matched token :: rest)) : ∀ nodes, motive nodes
  | [] => nil
  | .literal _ _ :: rest => literal _ _ _ (forest_induction nil literal matched rest)
  | .matched ⟨_, _, _, _, children⟩ :: rest =>
      matched _ _ (forest_induction nil literal matched children)
        (forest_induction nil literal matched rest)

mutual

/-- A node and all nodes below it, each before its children and these from left to right. -/
def preorder : Node → List Node
  | .literal text range => [.literal text range]
  | .matched token => .matched token :: preorderBelow token

def preorderBelow : Matched → List Node
  | ⟨_, _, _, _, children⟩ => preorderOf children

def preorderOf : List Node → List Node
  | [] => []
  | node :: rest => node.preorder ++ preorderOf rest

end

theorem preorder_eq_cons (node : Node) : node.preorder = node :: preorderOf node.children := by
  cases node with
  | literal text range => rw [preorder, children, preorderOf]
  | matched token =>
      obtain ⟨name, label, text, range, children⟩ := token
      rw [preorder, preorderBelow]
      rfl

@[simp]
theorem children_literal (text : String) (range : TextRange) :
    (Node.literal text range).children = [] :=
  rfl

@[simp]
theorem children_matched (token : Matched) : (Node.matched token).children = token.children :=
  rfl

@[simp]
theorem preorderOf_nil : preorderOf [] = [] := by
  rw [preorderOf]

@[simp]
theorem preorderOf_cons (node : Node) (rest : List Node) :
    preorderOf (node :: rest) = node :: (preorderOf node.children ++ preorderOf rest) := by
  rw [preorderOf, preorder_eq_cons, List.cons_append]

@[simp]
theorem leavesOf_nil : leavesOf [] = [] := by
  rw [leavesOf]

theorem leavesOf_cons_of_leaf (node : Node) (h : node.children = []) {rest : List Node} :
    leavesOf (node :: rest) = node :: leavesOf rest := by
  rw [leavesOf, leaves_of_children_eq_nil h, List.singleton_append]

theorem leavesOf_cons_of_inner (node : Node) (h : node.children ≠ []) {rest : List Node} :
    leavesOf (node :: rest) = leavesOf node.children ++ leavesOf rest := by
  rw [leavesOf, leaves_of_children_ne_nil h]

/-- The leaves are the nodes without children, at any depth, in the order of the text. -/
theorem leavesOf_eq_filter_preorderOf (nodes : List Node) :
    leavesOf nodes = (preorderOf nodes).filter (·.children.isEmpty) := by
  induction nodes using forest_induction with
  | nil => simp
  | literal text range rest ih =>
      rw [leavesOf_cons_of_leaf _ rfl, ih, preorderOf_cons, List.filter_cons_of_pos rfl,
        children_literal, preorderOf_nil, List.nil_append]
  | matched token rest ihchildren ihrest =>
      by_cases hleaf : token.children = []
      · rw [leavesOf_cons_of_leaf (.matched token) hleaf, ihrest]
        simp [hleaf]
      · rw [leavesOf_cons_of_inner (.matched token) hleaf]
        simp [hleaf, ihchildren, ihrest]

end Node

namespace LeafWalk

/-- What one turn of the search leads to. -/
inductive Turn where
  | stop (answer : Option Node) (pending : List (List Node))
  | again (pending : List (List Node))

/-- Leave a level that is done, give a leaf, or go down to the children of a node. -/
def turn : List (List Node) → Turn
  | [] => .stop none []
  | [] :: outer => .again outer
  | (node :: rest) :: outer =>
      if node.children.isEmpty then .stop (some node) (rest :: outer)
      else .again (node.children :: rest :: outer)

/-- The search, if it takes no more than some number of turns. -/
def search : Nat → List (List Node) → Option (Option Node × List (List Node))
  | 0, _ => none
  | n + 1, pending =>
      match turn pending with
      | .stop answer pending => some (answer, pending)
      | .again pending => search n pending

/-- The leaves that are still to be given. -/
def remaining (pending : List (List Node)) : List Node :=
  pending.flatMap Node.leavesOf

/-- A bound for the turns that are still to be taken: each level is left once, and each node is
taken once and may open a level. -/
def weight (pending : List (List Node)) : Nat :=
  pending.length + 2 * (pending.flatMap Node.preorderOf).length

theorem seek_of_turn_eq_stop {pending pending' : List (List Node)} {answer : Option Node}
    (h : turn pending = .stop answer pending') : seek pending = (answer, pending') := by
  match pending, h with
  | [], h =>
      cases h
      rw [seek]
  | (.literal text range :: rest) :: outer, h =>
      cases h
      rw [seek]
  | (.matched ⟨name, label, text, range, []⟩ :: rest) :: outer, h =>
      cases h
      rw [seek]

theorem seek_of_turn_eq_again {pending pending' : List (List Node)}
    (h : turn pending = .again pending') : seek pending = seek pending' := by
  match pending, h with
  | [] :: outer, h =>
      cases h
      rw [seek]
  | (.matched ⟨name, label, text, range, child :: siblings⟩ :: rest) :: outer, h =>
      cases h
      rw [seek]
      rfl

theorem of_turn_eq_stop {pending pending' : List (List Node)} {answer : Option Node}
    (h : turn pending = .stop answer pending') :
    answer = (remaining pending).head? ∧ remaining pending' = (remaining pending).tail ∧
      weight pending' ≤ weight pending := by
  match pending with
  | [] =>
      cases h
      exact ⟨rfl, rfl, Nat.le_refl _⟩
  | [] :: outer => cases h
  | (node :: rest) :: outer =>
      rw [turn] at h
      split at h
      case isTrue hleaf =>
        cases h
        have hnil : node.children = [] := List.isEmpty_iff.mp hleaf
        refine ⟨?_, ?_, ?_⟩
        · simp [remaining, Node.leavesOf_cons_of_leaf _ hnil]
        · simp [remaining, Node.leavesOf_cons_of_leaf _ hnil]
        · simp only [weight, List.flatMap_cons, Node.preorderOf_cons, List.length_cons,
            List.length_append]
          omega
      case isFalse => cases h

theorem of_turn_eq_again {pending pending' : List (List Node)}
    (h : turn pending = .again pending') :
    remaining pending' = remaining pending ∧ weight pending' < weight pending := by
  match pending with
  | [] => cases h
  | [] :: outer =>
      cases h
      constructor
      · simp [remaining]
      · simp [weight]
  | (node :: rest) :: outer =>
      rw [turn] at h
      split at h
      case isTrue => cases h
      case isFalse hinner =>
        cases h
        have hne : node.children ≠ [] := fun hnil => hinner (List.isEmpty_iff.mpr hnil)
        constructor
        · simp [remaining, Node.leavesOf_cons_of_inner _ hne]
        · simp only [weight, List.flatMap_cons, Node.preorderOf_cons, List.length_cons,
            List.length_append]
          omega

/-- The search ends before the turns run out that the weight allows. -/
theorem search_eq_some_seek {n : Nat} {pending : List (List Node)} (h : weight pending < n) :
    search n pending = some (seek pending) := by
  induction n generalizing pending with
  | zero => omega
  | succ n ih =>
      rw [search]
      cases hturn : turn pending with
      | stop answer pending' => exact congrArg some (seek_of_turn_eq_stop hturn).symm
      | again pending' =>
          have hlt := (of_turn_eq_again hturn).2
          show search n pending' = some (seek pending)
          rw [seek_of_turn_eq_again hturn]
          apply ih
          omega

theorem of_search_eq_some {n : Nat} {pending pending' : List (List Node)} {answer : Option Node}
    (h : search n pending = some (answer, pending')) :
    answer = (remaining pending).head? ∧ remaining pending' = (remaining pending).tail ∧
      weight pending' ≤ weight pending := by
  induction n generalizing pending with
  | zero => cases h
  | succ n ih =>
      rw [search] at h
      cases hturn : turn pending with
      | stop answer' pending'' =>
          rw [hturn] at h
          cases h
          exact of_turn_eq_stop hturn
      | again pending'' =>
          rw [hturn] at h
          obtain ⟨hremaining, hlt⟩ := of_turn_eq_again hturn
          have hrest := ih h
          rw [hremaining] at hrest
          exact ⟨hrest.1, hrest.2.1, by omega⟩

theorem of_next (walk : LeafWalk) :
    walk.next.1 = (remaining walk.pending).head? ∧
      remaining walk.next.2.pending = (remaining walk.pending).tail ∧
      weight walk.next.2.pending ≤ weight walk.pending :=
  of_search_eq_some (search_eq_some_seek (Nat.lt_succ_self _))

/-- The walk after some calls. -/
def after (walk : LeafWalk) : Nat → LeafWalk
  | 0 => walk
  | k + 1 => (walk.after k).next.2

theorem remaining_after (walk : LeafWalk) (k : Nat) :
    remaining (walk.after k).pending = (remaining walk.pending).drop k := by
  induction k with
  | zero => rfl
  | succ k ih => rw [after, (of_next _).2.1, ih, List.tail_drop]

theorem weight_after_le (walk : LeafWalk) (k : Nat) :
    weight (walk.after k).pending ≤ weight walk.pending := by
  induction k with
  | zero => exact Nat.le_refl _
  | succ k ih => exact Nat.le_trans (of_next _).2.2 ih

/-- The calls give some nodes, one each, and then nothing for ever. -/
def Yields (walk : LeafWalk) (nodes : List Node) : Prop :=
  ∀ k, (walk.after k).next.1 = nodes[k]?

theorem yields_remaining (walk : LeafWalk) : walk.Yields (remaining walk.pending) := by
  intro k
  rw [(of_next _).1, remaining_after, List.head?_drop]

theorem remaining_ofNodes (nodes : List Node) :
    remaining (ofNodes nodes).pending = Node.leavesOf nodes := by
  simp [remaining, ofNodes]

/-- After any number of calls, each further call ends within a number of turns that only the
number of nodes bounds. The calls give the remaining leaves, which are the nodes without
children at any depth. -/
theorem after_yields_drop_leavesOf (nodes : List Node) (k : Nat) :
    Node.leavesOf nodes = (Node.preorderOf nodes).filter (·.children.isEmpty) ∧
      ((ofNodes nodes).after k).Yields ((Node.leavesOf nodes).drop k) ∧
      let walk := (ofNodes nodes).after k
      search (2 * (Node.preorderOf nodes).length + 2) walk.pending =
        some (walk.next.1, walk.next.2.pending) := by
  refine ⟨Node.leavesOf_eq_filter_preorderOf nodes, ?_, ?_⟩
  · rw [← remaining_ofNodes, ← remaining_after]
    exact yields_remaining _
  · show search _ _ = some (seek _)
    apply search_eq_some_seek
    have hweight : weight (ofNodes nodes).pending = 1 + 2 * (Node.preorderOf nodes).length := by
      simp [weight, ofNodes]
    have hle := weight_after_le (ofNodes nodes) k
    omega

end LeafWalk

end Highlight
