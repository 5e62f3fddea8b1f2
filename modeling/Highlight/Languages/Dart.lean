import Highlight.Grammar.Draft
import Highlight.Registry.Session

namespace Highlight.Languages.Dart

def tokens : List (String × List Draft) := [
  ("string", [
    ⟨"r?(\"\"\"|''')[\\s\\S]*?\\1", { global := true }⟩,
    ⟨"r?(\"|')(?:\\\\.|(?!\\1)[^\\\\\\r\\n])*\\1", { global := true }⟩]),
  ("keyword", [
    .plain "\\b(?:async|sync|yield)\\*",
    .plain
      ("\\b(?:abstract|assert|async|await|break|case|catch|class|const|continue|default|" ++
       "deferred|do|dynamic|else|enum|export|external|extends|factory|final|finally|for|" ++
       "get|if|implements|import|in|library|new|null|operator|part|rethrow|return|set|" ++
       "static|super|switch|this|throw|try|typedef|var|void|while|with|yield)\\b")]),
  ("operator", [.plain
    "\\bis!|\\b(?:as|is)\\b|\\+\\+|--|&&|\\|\\||<<=?|>>=?|~(?:/=?)?|[+\\-*/%&^|=!<>]=?|\\?"])]

def metadata : List (String × List Draft) := [
  ("metadata", [⟨"@\\w+", { label := some "symbol" }⟩])]

/-- The common base with metadata. -/
def grammar : Build Grammar := do
  let tokens ← Build.ofExcept (Token.compileAll tokens)
  let dart ← Build.extend "clike" "dart" tokens
  Build.insert dart .before "function" (← Build.ofExcept (Token.compileAll metadata))

end Highlight.Languages.Dart
