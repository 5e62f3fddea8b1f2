import Highlight.Unicode.Property

/-!
Texts as they are shown in diagnostics: between quotes, with everything invisible spelt out.
-/

namespace Highlight.Text.Quoted

/-- The digits of a number in base sixteen, most significant first, in front of `rest`. The
first argument bounds their number. -/
def hexDigits : Nat → Nat → List Char → List Char
  | 0, _, rest => rest
  | count + 1, n, rest =>
      let digit := Nat.digitChar (n % 16)
      if n < 16 then digit :: rest else hexDigits count (n / 16) (digit :: rest)

/-- One character as it stands between quotes. What cannot be shown is named by its code
point. -/
def escape (c : Char) : List Char :=
  match c with
  | '"' => ['\\', '"']
  | '\\' => ['\\', '\\']
  | '\n' => ['\\', 'n']
  | '\r' => ['\\', 'r']
  | '\t' => ['\\', 't']
  | '\x00' => ['\\', '0']
  | c =>
      if Unicode.isShowable c.toNat && !Unicode.graphemeExtend.contains c.toNat then
        [c]
      else
        ['\\', 'u', '\x7b'] ++ hexDigits 6 c.toNat ['\x7d']

def quote (text : String) : String :=
  String.ofList ('"' :: text.toList.flatMap escape ++ ['"'])

def quoteAll (texts : List String) : String :=
  "[" ++ ", ".intercalate (texts.map quote) ++ "]"

def quote? : Option String → String
  | none => "None"
  | some text => "Some(" ++ quote text ++ ")"

end Highlight.Text.Quoted
