import Highlight.Grammar.Draft

namespace Highlight.Languages.Json

/-- A string before a colon is a property, any other one a string. -/
def tokens : List (String × List Draft) := [
  ("property", [.ignoreCase
    "\"(?:\\\\.|[^\\\\\"\\r\\n])*\"(?=\\s*:)"]),
  ("string", [⟨"\"(?:\\\\.|[^\\\\\"\\r\\n])*\"(?!\\s*:)", { global := true }⟩]),
  ("number", [.plain
    "\\b0x[\\dA-Fa-f]+\\b|(?:\\b\\d+\\.?\\d*|\\B\\.\\d+)(?:[Ee][+-]?\\d+)?"]),
  ("punctuation", [.plain "[\x7b\x7d\\[\\]);,]"]),
  ("operator", [.plain ":"]),
  ("boolean", [.ignoreCase "\\b(?:true|false)\\b"]),
  ("null", [.ignoreCase "\\bnull\\b"])]

def grammar : Except GrammarError Grammar :=
  Grammar.compile "json" tokens

end Highlight.Languages.Json
