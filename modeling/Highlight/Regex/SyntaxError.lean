namespace Highlight.Regex

inductive SyntaxError where
  | groupUnclosed
  | groupUnopened
  | classUnclosed
  | classEmpty
  | rangeEmpty
  /-- A range of characters ends in a class. -/
  | rangeOpen
  | nothingToRepeat
  | repeatTooBig
  | endAtEscape
  | endInGroup
  | undefinedOption
  | invalidReference
  /-- A reference by number, where groups have names. -/
  | numberedReference
  | undefinedName (name : String)
  | emptyName
  | invalidName (name : String)
  | invalidNameCharacter (name : String)
  | unknownBracketName
  | invalidCodePoint
  | codePointTooBig
  | codePointTooLong
  /-- A byte that is no character of its own. -/
  | lonelyByte
deriving DecidableEq

namespace SyntaxError

def message : SyntaxError → String
  | groupUnclosed => "end pattern with unmatched parenthesis"
  | groupUnopened => "unmatched close parenthesis"
  | classUnclosed => "premature end of char-class"
  | classEmpty => "empty char-class"
  | rangeEmpty => "empty range in char class"
  | rangeOpen => "char-class value at end of range"
  | nothingToRepeat => "target of repeat operator is not specified"
  | repeatTooBig => "too big number for repeat range"
  | endAtEscape => "end pattern at escape"
  | endInGroup => "end pattern in group"
  | undefinedOption => "undefined group option"
  | invalidReference => "invalid backref number/name"
  | numberedReference => "numbered backref/call is not allowed. (use name)"
  | undefinedName name => "undefined name <" ++ name ++ "> reference"
  | emptyName => "group name is empty"
  | invalidName name => "invalid group name <" ++ name ++ ">"
  | invalidNameCharacter name => "invalid char in group name <" ++ name ++ ">"
  | unknownBracketName => "invalid POSIX bracket type"
  | invalidCodePoint => "invalid code point value"
  | codePointTooBig => "too big wide-char value"
  | codePointTooLong => "too long wide-char value"
  | lonelyByte => "too short multibyte string"

end SyntaxError

end Highlight.Regex
