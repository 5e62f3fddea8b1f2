import Highlight.Compose.Focus
import Highlight.Grammar.Draft

namespace Highlight.Languages.Css

/-- The at-rule's own name. The other tokens of a style sheet are added to it. -/
def atRuleInside : Except GrammarError Grammar :=
  Grammar.compile "inside" [("rule", [.plain "@[\\w-]+"])]

def tokens (atRuleInside : Grammar) : List (String × List Draft) := [
  ("comment", [.plain "/\\*[\\s\\S]*?\\*/"]),
  ("atrule", [
    ⟨"@[\\w-]+?.*?(?:;|(?=\\s*\\\x7b))",
      { flags := { ignoreCase := true }, inside := some atRuleInside }⟩]),
  ("url", [.ignoreCase
    "url\\((?:([\"'])(?:\\\\(?:\\r\\n|[\\s\\S])|(?!\\1)[^\\\\\\r\\n])*\\1|.*?)\\)"]),
  ("selector", [.plain "[^\x7b\x7d\\s][^\x7b\x7d;]*?(?=\\s*\\\x7b)"]),
  ("string", [
    ⟨"(\"|')(?:\\\\(?:\\r\\n|[\\s\\S])|(?!\\1)[^\\\\\\r\\n])*\\1",
      { global := true }⟩]),
  ("property", [.ignoreCase
    "[-_a-z\\x\x7bA0\x7d-\\x\x7bFFFF\x7d][-\\w\\x\x7bA0\x7d-\\x\x7bFFFF\x7d]*(?=\\s*:)"]),
  ("important", [.ignoreCase "\\B!important\\b"]),
  ("function", [.ignoreCase "[-a-z0-9]+(?=\\()"]),
  ("punctuation", [.plain "[()\x7b\x7d;:]"])]

/-- A style sheet, where all that may stand in it may stand in an at-rule too. -/
def grammar : Except GrammarError Grammar := do
  let sheet ← Grammar.compile "css" (tokens (← atRuleInside))
  match sheet.focusInside? "atrule" with
  | none => .error (.tokenNotFound "css" "atrule")
  | some inside =>
      let others := sheet.tokens.filter (·.name != "atrule")
      return inside.plug (← inside.value.pushAll others)

end Highlight.Languages.Css
