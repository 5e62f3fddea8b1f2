import Highlight.Grammar.Draft

namespace Highlight.Languages.Brainfuck

/-- Eight commands of one character each. Any other text is a comment up to the next blank. -/
def tokens : List (String × List Draft) := [
  ("pointer", [⟨"<|>", { label := some "keyword" }⟩]),
  ("increment", [⟨"\\+", { label := some "inserted" }⟩]),
  ("decrement", [⟨"-", { label := some "deleted" }⟩]),
  ("branching", [⟨"\\[|\\]", { label := some "important" }⟩]),
  ("operator", [.plain "[.,]"]),
  ("comment", [.plain "\\S+"])]

def grammar : Except GrammarError Grammar :=
  Grammar.compile "brainfuck" tokens

end Highlight.Languages.Brainfuck
