import Highlight.Grammar.Draft
import Highlight.Registry.Session

namespace Highlight.Languages.Java

def keyword : String × List Draft :=
  ("keyword", [.plain
    ("\\b(?:abstract|continue|for|new|switch|assert|default|goto|package|synchronized|" ++
     "boolean|do|if|private|this|break|double|implements|protected|throw|byte|else|import|" ++
     "public|throws|case|enum|instanceof|return|transient|catch|extends|int|short|try|char|" ++
     "final|interface|static|void|class|finally|long|strictfp|volatile|const|float|native|" ++
     "super|while)\\b")])

def tokens : List (String × List Draft) := [
  keyword,
  ("number", [.ignoreCase
    ("\\b0b[01]+\\b|\\b0x[\\da-f]*\\.?[\\da-fp-]+\\b|(?:\\b\\d+\\.?\\d*|" ++
     "\\B\\.\\d+)(?:e[+-]?\\d+)?[df]?")]),
  ("operator", [
    ⟨("(^|[^.])(?:\\+[+=]?|-[-=]?|!=?|<<?=?|>>?>?=?|==?|&[&=]?|\\|[|=]?|\\*=?|/=?|%=?|" ++
      "\\^=?|[?:~])"),
      { flags := { multiline := true }, lookbehind := true }⟩])]

def annotations : List (String × List Draft) := [
  ("annotation", [⟨"(^|[^.])@\\w+", { lookbehind := true, label := some "punctuation" }⟩])]

/-- What stands between the angle brackets of generic types. -/
def genericsInside : Except GrammarError Grammar :=
  Grammar.compile "inside" [keyword, ("punctuation", [.plain "[<>(),.:]"])]

def generics (genericsInside : Grammar) : List (String × List Draft) := [
  ("generics", [
    ⟨"<\\s*\\w+(?:\\.\\w+)?(?:\\s*,\\s*\\w+(?:\\.\\w+)?)*>",
      { flags := { ignoreCase := true }, label := some "function"
        inside := some genericsInside }⟩])]

/-- The common base with annotations and generic types. -/
def grammar : Build Grammar := do
  let tokens ← Build.ofExcept (Token.compileAll tokens)
  let java ← Build.extend "clike" "java" tokens
  let annotations ← Build.ofExcept (Token.compileAll annotations)
  let java ← Build.insert java .before "function" annotations
  let inside ← Build.ofExcept genericsInside
  Build.insert java .before "class-name" (← Build.ofExcept (Token.compileAll (generics inside)))

end Highlight.Languages.Java
