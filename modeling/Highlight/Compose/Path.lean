import Highlight.Compose.Spot
import Highlight.Grammar.Basic

/-!
Paths such as `selector/class`, which lead from a grammar to a token of a grammar inside it.
-/

namespace Highlight

namespace Path

/-- Cut a text at its slashes: the part before the first one, and the others. -/
def cut : List Char → List Char × List (List Char)
  | [] => ([], [])
  | c :: rest =>
      let (first, others) := cut rest
      if c = '/' then ([], first :: others) else (c :: first, others)

/-- The names that a path leads through. There is at least one. -/
def segments (path : String) : List String :=
  let (first, others) := cut path.toList
  (first :: others).map String.ofList

/-- The names that lead to the grammar in which the last name is looked up. -/
def owners (path : String) : List String :=
  (segments path).dropLast

def last (path : String) : String :=
  (segments path).getLastD ""

end Path

def Token.inside? (t : Token) : Option Grammar :=
  t.patterns.findSome? (·.inside)

namespace Grammar

/-- The token at the end of a path. Each name but the last leads into the grammar inside its
token. -/
def tokenAlong? (g : Grammar) : List String → Option Token
  | [] => none
  | [name] => g.find? name
  | name :: next :: rest => do
      let inner ← (← g.find? name).inside?
      inner.tokenAlong? (next :: rest)

def tokenAt? (g : Grammar) (path : String) : Option Token :=
  g.tokenAlong? (Path.segments path)

def insideAt? (g : Grammar) (path : String) : Option Grammar := do
  (← g.tokenAt? path).inside?

end Grammar

end Highlight
