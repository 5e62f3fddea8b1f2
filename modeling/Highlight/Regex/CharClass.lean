import Highlight.Unicode.Folding
import Highlight.Unicode.Property

/-!
Classes of characters, as sets of code points with a decidable membership.
-/

namespace Highlight.Regex

/-- A class of characters, as a regex describes it. -/
inductive CharClass where
  | none
  | range (first last : Nat)
  | property (named : Unicode.Property)
  | union (a b : CharClass)
  | inter (a b : CharClass)
  | compl (a : CharClass)
  /-- The class together with the other cases of its members. -/
  | folded (a : CharClass)
deriving DecidableEq

namespace CharClass

def single (code : Nat) : CharClass :=
  .range code code

def contains : CharClass → Nat → Bool
  | .none, _ => false
  | .range first last, code => first ≤ code && code ≤ last
  | .property named, code => named.contains code
  | .union a b, code => a.contains code || b.contains code
  | .inter a b, code => a.contains code && b.contains code
  | .compl a, code => !a.contains code
  | .folded a, code => a.contains code || (Unicode.peers code).any a.contains

/-- The class with other cases if `fold` asks for them. -/
def foldIf (fold : Bool) (a : CharClass) : CharClass :=
  if fold then .folded a else a

/-- The class or all that is not in it. -/
def complIf (negate : Bool) (a : CharClass) : CharClass :=
  if negate then .compl a else a

/-- The characters that end a line, in one character. -/
def lineBreak : CharClass :=
  .union (.range 0x0A 0x0D) (.union (single 0x85) (.range 0x2028 0x2029))

end CharClass

end Highlight.Regex
