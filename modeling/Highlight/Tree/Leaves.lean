import Highlight.Tree.Node

/-!
The leaves of a tree one at a time, and their texts all together.
-/

namespace Highlight

/-- A walk along the leaves of some nodes: for each level from the innermost one out, the nodes
that it still has to visit. -/
structure LeafWalk where
  pending : List (List Node)

namespace LeafWalk

def ofNodes (nodes : List Node) : LeafWalk :=
  ⟨[nodes]⟩

/-- Go down and up until a leaf is met. -/
def seek : List (List Node) → Option Node × List (List Node)
  | [] => (none, [])
  | [] :: outer => seek outer
  | (.literal text range :: rest) :: outer => (some (.literal text range), rest :: outer)
  | (.matched ⟨name, label, text, range, []⟩ :: rest) :: outer =>
      (some (.matched ⟨name, label, text, range, []⟩), rest :: outer)
  | (.matched ⟨_, _, _, _, child :: siblings⟩ :: rest) :: outer =>
      seek ((child :: siblings) :: rest :: outer)

def next (walk : LeafWalk) : Option Node × LeafWalk :=
  let (leaf, pending) := seek walk.pending
  (leaf, ⟨pending⟩)

end LeafWalk

def concatText (nodes : List Node) : String :=
  String.join ((Node.leavesOf nodes).map (·.text))

end Highlight
