import Highlight.Regex.CharClass

/-!
Regular expressions with captures, conditions on the surroundings and references back.
-/

namespace Highlight.Regex

inductive Anchor where
  | textStart
  | textEnd
  /-- The end, or the place before a newline that ends the text. -/
  | lastLineEnd
  | lineStart
  | lineEnd
  | wordEdge
  | noWordEdge
  /-- The place from which the search started. -/
  | searchStart
deriving DecidableEq

/-- Regular expressions with groups that capture, conditions on the surroundings and
references back to captured text. -/
inductive Expr where
  | empty
  | one (of : CharClass)
  | seq (first second : Expr)
  | alt (first second : Expr)
  | group (number : Nat) (body : Expr)
  /-- The first way to match `body`, and no other. -/
  | atomic (body : Expr)
  | ahead (negate : Bool) (body : Expr)
  | behind (negate : Bool) (body : Expr)
  | anchor (condition : Anchor)
  /-- The text that the first of the groups to have taken part has captured. -/
  | backref (numbers : List Nat) (fold : Bool)
  | repeated (body : Expr) (least : Nat) (most : Option Nat) (greedy : Bool)
  /-- Let the match begin here. -/
  | keep
deriving DecidableEq

namespace Expr

def ofList : List Expr → Expr
  | [] => .empty
  | [e] => e
  | e :: rest => .seq e (ofList rest)

def choice : (first : Expr) → (others : List Expr) → Expr
  | first, [] => first
  | first, second :: others => .alt first (choice second others)

def references : Expr → List Nat
  | .empty | .one _ | .anchor _ | .keep => []
  | .seq a b | .alt a b => a.references ++ b.references
  | .group _ body | .atomic body | .ahead _ body | .behind _ body | .repeated body _ _ _ =>
      body.references
  | .backref numbers _ => numbers

end Expr

end Highlight.Regex
