import Highlight.Grammar.Draft
import Highlight.Registry.Session

namespace Highlight.Languages.CssExtras

def selectorInside : Except GrammarError Grammar :=
  Grammar.compile "inside" [
    ("pseudo-element", [.plain
      ":(?:after|before|first-letter|first-line|selection)|::[-\\w]+"]),
    ("pseudo-class", [.plain ":[-\\w]+(?:\\(.*\\))?"]),
    ("class", [.plain "\\.[-:.\\w]+"]),
    ("id", [.plain "#[-:.\\w]+"]),
    ("attribute", [.plain "\\[[^\\]]+\\]"])]

def selector : Except GrammarError Pattern := do
  let inside ← selectorInside
  Draft.compile ⟨"[^\x7b\x7d\\s][^\x7b\x7d]*(?=\\s*\\\x7b)", { inside := some inside }⟩

def values : List (String × List Draft) := [
  ("hexcode", [.ignoreCase "#[\\da-f]\x7b3,8\x7d"]),
  ("entity", [.ignoreCase "\\\\[\\da-f]\x7b1,8\x7d"]),
  ("number", [.plain "[\\d%.]+"])]

/-- Tell apart the parts of selectors, and more values, in a style sheet. -/
def addTo (sheet : Grammar) : Build Grammar := do
  let sheet ← Build.replacePatterns sheet "selector" [← Build.ofExcept selector]
  Build.insert sheet .before "function" (← Build.ofExcept (Token.compileAll values))

end Highlight.Languages.CssExtras
