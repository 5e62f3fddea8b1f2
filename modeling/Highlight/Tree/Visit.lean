import Highlight.Tree.Node

/-!
Visitors of trees, depth first, and records of what they see.
-/

namespace Highlight

/-- What to do at the nodes of a tree, with a state that each visit may change. By default
nothing is done and nothing is left out. -/
structure Visitor (σ : Type) where
  literal : String → TextRange → σ → σ := fun _ _ s => s
  /-- Before the children of a matched node. The flag tells whether to visit them. -/
  enter : Matched → σ → Bool × σ := fun _ s => (true, s)
  /-- After the children, or in their place. -/
  leave : Matched → σ → σ := fun _ s => s

namespace Visitor

mutual

def visit {σ : Type} (v : Visitor σ) : Node → σ → σ
  | .literal text range, s => v.literal text range s
  | .matched token, s => v.visitMatched token s

def visitMatched {σ : Type} (v : Visitor σ) : Matched → σ → σ
  | ⟨name, label, text, range, children⟩, s =>
      let token : Matched := ⟨name, label, text, range, children⟩
      let (goOn, s) := v.enter token s
      v.leave token (if goOn then v.visitAll children s else s)

/-- Visit nodes depth first, from left to right. -/
def visitAll {σ : Type} (v : Visitor σ) : List Node → σ → σ
  | [], s => s
  | node :: rest, s => v.visitAll rest (v.visit node s)

end

end Visitor

inductive Visit where
  | text (text : String) (range : TextRange)
  | enter (kind : String)
  | exit (kind : String)
deriving DecidableEq

namespace Visit

abbrev Record : Type := List Visit

/-- Record everything, and leave out the children of tokens of some kinds. -/
def recorder (skip : List String) : Visitor Record where
  literal text range record := .text text range :: record
  enter token record := (!skip.contains token.kind, .enter token.kind :: record)
  leave token record := .exit token.kind :: record

def literalRecorder : Visitor Record where
  literal text range record := .text text range :: record

def exitRecorder : Visitor Record where
  leave token record := .exit token.kind :: record

def recordAll (v : Visitor Record) (nodes : List Node) : List Visit :=
  (v.visitAll nodes []).reverse

end Visit

end Highlight
