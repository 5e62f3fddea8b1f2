import Highlight.Unicode.Alphabetic
import Highlight.Unicode.Assigned
import Highlight.Unicode.Blank
import Highlight.Unicode.Connector
import Highlight.Unicode.Control
import Highlight.Unicode.Digit
import Highlight.Unicode.Format
import Highlight.Unicode.GraphemeExtend
import Highlight.Unicode.Lowercase
import Highlight.Unicode.Mark
import Highlight.Unicode.Punctuation
import Highlight.Unicode.Space
import Highlight.Unicode.Uppercase

namespace Highlight.Unicode

/-- Letters, marks, digits and connectors: what words consist of. -/
def isWord (code : Nat) : Bool :=
  alphabetic.contains code || mark.contains code || digit.contains code ||
    connector.contains code

def isSurrogate (code : Nat) : Bool :=
  0xD800 ≤ code && code < 0xE000

def isPrivate (code : Nat) : Bool :=
  (0xE000 ≤ code && code < 0xF900) || (0xF0000 ≤ code && code < 0xFFFFE) ||
    (0x100000 ≤ code && code < 0x10FFFE)

/-- Whether a character leaves a mark on paper. -/
def isGraphic (code : Nat) : Bool :=
  assigned.contains code && !space.contains code && !control.contains code &&
    !isSurrogate code

/-- Whether a character can be shown as it is: not unassigned, not for private use, no
control or format character, and no separator but the plain space. -/
def isShowable (code : Nat) : Bool :=
  code == 0x20 ||
    (isGraphic code && !format.contains code && !isPrivate code && !blank.contains code)

/-- The named classes of characters that a regex can refer to. -/
inductive Property where
  | alnum | alpha | ascii | blank | cntrl | digit | graph | lower | print | punct | space
  | upper | word | xdigit
deriving DecidableEq

namespace Property

def contains : Property → Nat → Bool
  | .alnum, code => alphabetic.contains code || Unicode.digit.contains code
  | .alpha, code => alphabetic.contains code
  | .ascii, code => code < 0x80
  | .blank, code => Unicode.blank.contains code
  | .cntrl, code => control.contains code
  | .digit, code => Unicode.digit.contains code
  | .graph, code => isGraphic code
  | .lower, code => lowercase.contains code
  | .print, code => isGraphic code || (Unicode.blank.contains code && !control.contains code)
  | .punct, code => punctuation.contains code
  | .space, code => Unicode.space.contains code
  | .upper, code => uppercase.contains code
  | .word, code => isWord code
  | .xdigit, code =>
      (0x30 ≤ code && code ≤ 0x39) || (0x41 ≤ code && code ≤ 0x46) ||
        (0x61 ≤ code && code ≤ 0x66)

/-- The names under which bracket expressions know the classes. -/
def names : List (String × Property) := [
  ("alnum", .alnum), ("alpha", .alpha), ("ascii", .ascii), ("blank", .blank),
  ("cntrl", .cntrl), ("digit", .digit), ("graph", .graph), ("lower", .lower),
  ("print", .print), ("punct", .punct), ("space", .space), ("upper", .upper),
  ("word", .word), ("xdigit", .xdigit)]

end Property

end Highlight.Unicode
