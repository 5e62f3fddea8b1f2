import Highlight.Regex.CharClass
import Highlight.Regex.SyntaxError

/-!
What stands behind a backslash, in and out of bracket expressions.
-/

namespace Highlight.Regex

/-- The value of a digit in bases up to sixteen. -/
def digitValue? (base : Nat) (c : Char) : Option Nat :=
  let value? :=
    if '0' ≤ c ∧ c ≤ '9' then some (c.toNat - 0x30)
    else if 'a' ≤ c ∧ c ≤ 'f' then some (c.toNat - 0x61 + 10)
    else if 'A' ≤ c ∧ c ≤ 'F' then some (c.toNat - 0x41 + 10)
    else none
  value?.filter (· < base)

/-- Read at most `most` digits: their number, their value and what follows them. -/
def readDigits (base : Nat) : (most : Nat) → List Char → Nat × Nat × List Char
  | most, rest => go most 0 0 rest
where
  go : Nat → Nat → Nat → List Char → Nat × Nat × List Char
    | 0, count, value, rest => (count, value, rest)
    | _ + 1, count, value, [] => (count, value, [])
    | most + 1, count, value, c :: rest =>
        match digitValue? base c with
        | some digit => go most (count + 1) (value * base + digit) rest
        | none => (count, value, c :: rest)

def readDecimal (text : List Char) : Nat × Nat × List Char :=
  readDigits 10 text.length text

/-- A number can name a character if it is a code point and no surrogate. -/
def checkCodePoint (code : Nat) : Except SyntaxError Nat :=
  if 0x10FFFF < code then .error .codePointTooBig
  else if Unicode.isSurrogate code then .error .invalidCodePoint
  else .ok code

/-- A byte alone names a character only if it is an ASCII one. -/
def checkByte (byte : Nat) : Except SyntaxError Nat :=
  if byte < 0x80 then .ok byte else .error .lonelyByte

/-- The character that an escape names by a number or a letter. `c` is the character behind the
backslash, `rest` what follows it. Any other character stands for itself, so also the letters of
properties (`\p{..}`), of control and meta characters (`\c`, `\C-`, `\M-`) and of octal numbers in
braces (`\o{..}`), none of which is read here. -/
def readEscapedCode (c : Char) (rest : List Char) : Except SyntaxError (Nat × List Char) :=
  match c with
  | 't' => .ok (0x09, rest)
  | 'n' => .ok (0x0A, rest)
  | 'v' => .ok (0x0B, rest)
  | 'f' => .ok (0x0C, rest)
  | 'r' => .ok (0x0D, rest)
  | 'a' => .ok (0x07, rest)
  | 'e' => .ok (0x1B, rest)
  | 'u' =>
      let (count, value, rest) := readDigits 16 4 rest
      if count < 4 then .error .invalidCodePoint
      else (checkCodePoint value).map (·, rest)
  | 'x' =>
      match rest with
      | '\x7b' :: inner =>
          let (count, value, after) := readDigits 16 8 inner
          match after with
          | '\x7d' :: after =>
              if count = 0 then .ok (c.toNat, rest) else (checkCodePoint value).map (·, after)
          | next :: _ =>
              if (digitValue? 16 next).isSome then .error .codePointTooLong
              else .ok (c.toNat, rest)
          | [] => .ok (c.toNat, rest)
      | _ =>
          let (_, value, after) := readDigits 16 2 rest
          (checkByte value).map (·, after)
  | c =>
      if (digitValue? 8 c).isSome then
        let (_, value, after) := readDigits 8 3 (c :: rest)
        (checkByte value).map (·, after)
      else
        .ok (c.toNat, rest)

def shorthand? : Char → Option CharClass
  | 'w' => some (.property .word)
  | 'W' => some (.compl (.property .word))
  | 'd' => some (.property .digit)
  | 'D' => some (.compl (.property .digit))
  | 's' => some (.property .space)
  | 'S' => some (.compl (.property .space))
  | 'h' => some (.property .xdigit)
  | 'H' => some (.compl (.property .xdigit))
  | _ => none

end Highlight.Regex
