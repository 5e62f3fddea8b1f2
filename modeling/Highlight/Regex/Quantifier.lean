import Highlight.Regex.Escape
import Highlight.Regex.Expr

/-!
Repetition signs, and what they make of the expression before them.
-/

namespace Highlight.Regex

/-- How a repetition chooses the number of rounds: the greatest that works, the least that
works, or the greatest, once and for all. -/
inductive Appetite where
  | greedy
  | lazy
  | possessive

structure Quantifier where
  least : Nat
  most : Option Nat
  appetite : Appetite

namespace Quantifier

def apply (q : Quantifier) (e : Expr) : Expr :=
  match q.appetite with
  | .greedy => .repeated e q.least q.most true
  | .lazy => .repeated e q.least q.most false
  | .possessive => .atomic (.repeated e q.least q.most true)

/-- No count in a repetition may be greater. -/
def limit : Nat := 100000

/-- The counts in a repetition such as `{2,5}`. -/
inductive Interval where
  | exactly (count : Nat)
  | between (least : Nat) (most : Option Nat)

/-- Read the counts of a repetition, after its opening brace. A least count may be left out only
if there is a greatest one. There is no repetition if the text does not look like one. -/
def readInterval (text : List Char) : Except SyntaxError (Option (Interval × List Char)) := do
  let (count, least, rest) := readDecimal text
  if limit < least then throw .repeatTooBig
  match rest with
  | ',' :: rest =>
      let (count', most, rest) := readDecimal rest
      if limit < most then throw .repeatTooBig
      match rest with
      | '\x7d' :: rest =>
          if count' = 0 then
            if count = 0 then return none else return some (.between least none, rest)
          else
            return some (.between least (some most), rest)
      | _ => return none
  | '\x7d' :: rest => if count = 0 then return none else return some (.exactly least, rest)
  | _ => return none

/-- A question mark behind a repetition makes it lazy. -/
def readLazy (q : Quantifier) : List Char → Quantifier × List Char
  | '?' :: rest => ({ q with appetite := .lazy }, rest)
  | rest => (q, rest)

def readAppetite (q : Quantifier) : List Char → Quantifier × List Char
  | '+' :: rest => ({ q with appetite := .possessive }, rest)
  | rest => q.readLazy rest

/-- An exact count cannot be lazy. A least count above the greatest one exchanges the two and
makes the repetition possessive. -/
def ofInterval (interval : Interval) (rest : List Char) : Quantifier × List Char :=
  match interval with
  | .exactly count => (⟨count, some count, .greedy⟩, rest)
  | .between least none => readLazy ⟨least, none, .greedy⟩ rest
  | .between least (some most) =>
      if most < least then readLazy ⟨most, some least, .possessive⟩ rest
      else readLazy ⟨least, some most, .greedy⟩ rest

def read? : List Char → Except SyntaxError (Option (Quantifier × List Char))
  | '*' :: rest => .ok (some (readAppetite ⟨0, none, .greedy⟩ rest))
  | '+' :: rest => .ok (some (readAppetite ⟨1, none, .greedy⟩ rest))
  | '?' :: rest => .ok (some (readAppetite ⟨0, some 1, .greedy⟩ rest))
  | '\x7b' :: rest => do
      match ← readInterval rest with
      | some (interval, rest) => return some (ofInterval interval rest)
      | none => return none
  | _ => .ok none

end Quantifier

end Highlight.Regex
