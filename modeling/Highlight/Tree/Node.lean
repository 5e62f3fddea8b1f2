import Highlight.Text.Range

/-!
Trees of tokenized text, and their leaves from left to right.
-/

namespace Highlight

mutual

/-- A piece of tokenized text. Ranges are those in the whole text, at every depth. -/
inductive Node where
  /-- Text that no pattern matched, or context. -/
  | literal (text : String) (range : TextRange)
  | matched (token : Matched)

structure Matched where
  name : String
  label : Option String
  text : String
  range : TextRange
  /-- What the grammar inside the pattern makes of the text. -/
  children : List Node

end

namespace Matched

/-- What to show the token as: its label, or else its name. -/
def kind (token : Matched) : String :=
  token.label.getD token.name

end Matched

namespace Node

def text : Node → String
  | .literal text _ => text
  | .matched token => token.text

def range : Node → TextRange
  | .literal _ range => range
  | .matched token => token.range

def isLiteral : Node → Bool
  | .literal _ _ => true
  | .matched _ => false

def matched? : Node → Option Matched
  | .literal _ _ => none
  | .matched token => some token

def name? (node : Node) : Option String :=
  node.matched?.map (·.name)

def kind? (node : Node) : Option String :=
  node.matched?.map (·.kind)

def children : Node → List Node
  | .literal _ _ => []
  | .matched token => token.children

mutual

/-- The nodes without children at or below a node, from left to right. -/
def leaves : Node → List Node
  | .literal text range => [.literal text range]
  | .matched token => leavesMatched token

/-- The leaves of a matched node: itself, if it has no children. -/
def leavesMatched : Matched → List Node
  | ⟨name, label, text, range, []⟩ => [.matched ⟨name, label, text, range, []⟩]
  | ⟨_, _, _, _, child :: rest⟩ => leavesOf (child :: rest)

def leavesOf : List Node → List Node
  | [] => []
  | node :: rest => node.leaves ++ leavesOf rest

end

end Node

end Highlight
