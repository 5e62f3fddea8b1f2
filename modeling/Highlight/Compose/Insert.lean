import Highlight.Compose.Focus

/-!
Changes to a grammar at the end of a path. They succeed as a whole or not at all.
-/

namespace Highlight

inductive Side where
  | before
  | after
deriving DecidableEq

namespace Side

def shift : Side → Nat → Nat
  | .before, index => index
  | .after, index => index + 1

end Side

namespace Grammar

/-- Insert tokens beside the one at the end of a path. Before it they take precedence over it,
after it they yield to it. -/
def insert (g : Grammar) (side : Side) (anchor : String) (tokens : List Token) :
    Except GrammarError Grammar :=
  let missing : GrammarError := .anchorNotFound g.name anchor
  match g.focusAlong? (Path.owners anchor) with
  | none => .error missing
  | some owner =>
      match owner.value.position? (Path.last anchor) with
      | none => .error missing
      | some index => (owner.value.splice (side.shift index) tokens).map owner.plug

def replacePatterns (g : Grammar) (path : String) (patterns : List Pattern) :
    Except GrammarError Grammar :=
  match g.focusToken? path with
  | none => .error (.tokenNotFound g.name path)
  | some token => (token.value.replacePatterns patterns).map token.plug

end Grammar

end Highlight
