import Highlight.Proofs.Scan.Plain
import Highlight.Proofs.Text.Order
import Mathlib.Data.List.Forall2

/-!
Rules that differ only in how they tokenize the text of their hits. The steps of a scan by them are
the same but for the rules, and so are the tokens.
-/

namespace Highlight

/-- Two ways to tokenize that do the same to all texts with offsets that fit. -/
def Tokenizer.Alike (tokenize other : Tokenizer) : Prop :=
  ∀ base text, base + Text.width text < UInt32.size → tokenize base text = other base text

/-- Two rules that differ at most in how they tokenize the text of their hits, and not in what
comes of it. -/
structure Rule.Alike (rule other : Rule) : Prop where
  token : rule.token = other.token
  label : rule.label = other.label
  global : rule.global = other.global
  find : rule.find = other.find
  inside : Option.Rel Tokenizer.Alike rule.inside other.inside

/-- Steps of the same kind by alike rules. -/
inductive Step.Alike : Step → Step → Prop
  | skip (stop : Nat) : Step.Alike (.skip stop) (.skip stop)
  | take {rule other : Rule} (hit : Hit) (rule_alike : rule.Alike other) :
      Step.Alike (.take rule hit) (.take other hit)

namespace Plain

end Plain

end Highlight
