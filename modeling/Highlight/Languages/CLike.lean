import Highlight.Grammar.Draft

namespace Highlight.Languages.CLike

/-- What stands inside the name of a class: the signs between its parts. -/
def classNameInside : Except GrammarError Grammar :=
  Grammar.compile "inside" [("punctuation", [.plain "[.\\\\]"])]

/-- What the languages of this family have in common. -/
def tokens (classNameInside : Grammar) : List (String × List Draft) := [
  ("comment", [
    ⟨"(^|[^\\\\])/\\*[\\s\\S]*?(?:\\*/|$)", { lookbehind := true }⟩,
    ⟨"(^|[^\\\\:])//.*", { lookbehind := true }⟩]),
  ("string", [
    ⟨"([\"'])(?:\\\\(?:\\r\\n|[\\s\\S])|(?!\\1)[^\\\\\\r\\n])*\\1",
      { global := true }⟩]),
  ("class-name", [
    ⟨("((?:\\b(?:class|interface|extends|implements|trait|instanceof|new)\\s+)|" ++
      "(?:catch\\s+\\())[\\w.\\\\]+"),
      { flags := { ignoreCase := true }, lookbehind := true, inside := some classNameInside }⟩]),
  ("keyword", [.plain
    ("\\b(?:if|else|while|do|for|return|in|instanceof|function|new|try|throw|catch|finally|" ++
     "null|break|continue)\\b")]),
  ("boolean", [.plain "\\b(?:true|false)\\b"]),
  ("function", [.ignoreCase "[a-z0-9_]+(?=\\()"]),
  ("number", [.ignoreCase
    "\\b0x[\\da-f]+\\b|(?:\\b\\d+\\.?\\d*|\\B\\.\\d+)(?:e[+-]?\\d+)?"]),
  ("operator", [.plain
    "--?|\\+\\+?|!=?=?|<=?|>=?|==?=?|&&?|\\|\\|?|\\?|\\*|/|~|\\^|%"]),
  ("punctuation", [.plain "[\x7b\x7d\\[\\];(),.:]"])]

def grammar : Except GrammarError Grammar := do
  Grammar.compile "clike" (tokens (← classNameInside))

end Highlight.Languages.CLike
