import Highlight.Grammar.Basic

/-!
Grammars written down as tables of regexes, and their compilation.
-/

namespace Highlight

structure Draft where
  source : String
  options : Pattern.Options := {}

namespace Draft

def compile (draft : Draft) : Except GrammarError Pattern :=
  Pattern.build draft.source draft.options

def compileAll : List Draft → Except GrammarError (List Pattern)
  | [] => .ok []
  | draft :: rest => do
      let pattern ← draft.compile
      return pattern :: (← compileAll rest)

def plain (source : String) : Draft :=
  ⟨source, {}⟩

/-- A draft that matches letters regardless of case. -/
def ignoreCase (source : String) : Draft :=
  ⟨source, { flags := { ignoreCase := true } }⟩

end Draft

def Token.compile (name : String) (drafts : List Draft) : Except GrammarError Token := do
  Token.build name (← Draft.compileAll drafts)

def Token.compileAll : List (String × List Draft) → Except GrammarError (List Token)
  | [] => .ok []
  | (name, drafts) :: rest => do
      let token ← Token.compile name drafts
      return token :: (← Token.compileAll rest)

def Grammar.compile (name : String) (tokens : List (String × List Draft)) :
    Except GrammarError Grammar := do
  Grammar.build name (← Token.compileAll tokens)

end Highlight
