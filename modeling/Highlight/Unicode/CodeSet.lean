namespace Highlight.Unicode

/-- A set of code points, given by the code points at which membership changes, in ascending
order: the first boundary is the first member, the second the first code point behind it that
is none, and so on. -/
structure CodeSet where
  ofBoundaries ::
  boundaries : List Nat

namespace CodeSet

/-- Whether an odd number of ascending boundaries lies at or below `code`. -/
def crossesOdd : List Nat → Nat → Bool
  | [], _ => false
  | bound :: rest, code => if code < bound then false else !crossesOdd rest code

def contains (set : CodeSet) (code : Nat) : Bool :=
  crossesOdd set.boundaries code

end CodeSet

end Highlight.Unicode
