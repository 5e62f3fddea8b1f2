import Highlight.Scan.Forest

/-!
Tokenizing by a grammar, and by the grammars inside its patterns in turn.
-/

namespace Highlight

variable [Regex.Searcher]

mutual

/-- The rules of a grammar, in order of precedence. -/
def Grammar.rules : Grammar → List Rule
  | ⟨_, tokens, _⟩ => Token.rulesOf tokens

def Token.rulesOf : List Token → List Rule
  | [] => []
  | token :: rest => token.rules ++ Token.rulesOf rest

def Token.rules : Token → List Rule
  | ⟨name, patterns⟩ => Pattern.rulesOf name patterns

def Pattern.rulesOf (name : String) : List Pattern → List Rule
  | [] => []
  | pattern :: rest => pattern.rule name :: Pattern.rulesOf name rest

def Pattern.rule (name : String) : Pattern → Rule
  | ⟨regex, lookbehind, global, label, inside⟩ =>
      { token := name
        label := label
        global := global
        find := regex.hit? lookbehind
        inside := Grammar.tokenizer? inside }

def Grammar.tokenizer? : Option Grammar → Option Tokenizer
  | none => none
  | some g => some (Forest.ofRules g.rules)

end

def Grammar.tokenize (g : Grammar) (text : String) : Except Fault (List Node) :=
  Forest.ofRules g.rules 0 text.toList

end Highlight
