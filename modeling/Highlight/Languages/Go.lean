import Highlight.Grammar.Draft
import Highlight.Registry.Session

namespace Highlight.Languages.Go

def tokens : List (String × List Draft) := [
  ("keyword", [.plain
    ("\\b(?:break|case|chan|const|continue|default|defer|else|fallthrough|for|func|" ++
     "go(?:to)?|if|import|interface|map|package|range|return|select|struct|switch|type|" ++
     "var)\\b")]),
  ("boolean", [.plain "\\b(?:_|iota|nil|true|false)\\b"]),
  ("operator", [.plain
    ("[*/%^!=]=?|\\+[=+]?|-[=-]?|\\|[=|]?|&(?:=|&|\\^=?)?|>(?:>=?|=)?|<(?:<=?|=|-)?|:=|" ++
     "\\.\\.\\.")]),
  ("number", [.ignoreCase
    "(?:\\b0x[a-f\\d]+|(?:\\b\\d+\\.?\\d*|\\B\\.\\d+)(?:e[-+]?\\d+)?)i?"]),
  ("string", [⟨"([\"'`])(\\\\[\\s\\S]|(?!\\1)[^\\\\])*\\1", { global := true }⟩])]

/-- Types and functions that need no import. -/
def builtins : List (String × List Draft) := [
  ("builtin", [.plain
    ("\\b(?:bool|byte|complex(?:64|128)|error|float(?:32|64)|rune|string|u?int(?:8|16|32|" ++
     "64)?|uintptr|append|cap|close|complex|copy|delete|imag|len|make|new|panic|" ++
     "print(?:ln)?|real|recover)\\b")])]

/-- The common base without class names. -/
def grammar : Build Grammar := do
  let tokens ← Build.ofExcept (Token.compileAll tokens)
  let go ← Build.extendFiltered "clike" "go" (.ofPred (·.name != "class-name")) tokens
  Build.insert go .before "boolean" (← Build.ofExcept (Token.compileAll builtins))

end Highlight.Languages.Go
