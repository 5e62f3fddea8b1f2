import Highlight.Proofs.Grammar.Nesting
import Highlight.Proofs.Scan.Path
import Highlight.Scan.Tokenize

/-!
The rules of a grammar, one for each pattern of each token, in order.
-/

namespace Highlight

variable [Regex.Searcher]

theorem Pattern.rulesOf_eq_map (name : String) (patterns : List Pattern) :
    Pattern.rulesOf name patterns = patterns.map (·.rule name) := by
  induction patterns with
  | nil => rw [Pattern.rulesOf, List.map_nil]
  | cons pattern rest ih => rw [Pattern.rulesOf, List.map_cons, ih]

theorem Token.rulesOf_eq_flatMap (tokens : List Token) :
    Token.rulesOf tokens =
      tokens.flatMap fun token => token.patterns.map (·.rule token.name) := by
  induction tokens with
  | nil => rw [Token.rulesOf, List.flatMap_nil]
  | cons token rest ih =>
      obtain ⟨name, patterns⟩ := token
      rw [Token.rulesOf, List.flatMap_cons, ih, Token.rules, Pattern.rulesOf_eq_map]

theorem Grammar.rules_eq_flatMap (g : Grammar) :
    g.rules = g.tokens.flatMap fun token => token.patterns.map (·.rule token.name) := by
  obtain ⟨name, tokens, parent⟩ := g
  rw [Grammar.rules, Token.rulesOf_eq_flatMap]

namespace Pattern

variable (p : Pattern) (name : String)

@[simp] theorem rule_token : (p.rule name).token = name := by
  cases p
  rfl

@[simp] theorem rule_label : (p.rule name).label = p.label := by
  cases p
  rfl

@[simp] theorem rule_global : (p.rule name).global = p.global := by
  cases p
  rfl

@[simp] theorem rule_find : (p.rule name).find = p.hit? := by
  cases p
  rfl

@[simp] theorem rule_inside :
    (p.rule name).inside = p.inside.map fun h => Forest.ofRules h.rules := by
  obtain ⟨regex, lookbehind, global, label, inside⟩ := p
  cases inside with
  | none => rfl
  | some h => rfl

end Pattern

theorem Grammar.mem_rules_iff {g : Grammar} {rule : Rule} :
    rule ∈ g.rules ↔
      ∃ token ∈ g.tokens, ∃ pattern ∈ token.patterns, pattern.rule token.name = rule := by
  simp only [Grammar.rules_eq_flatMap, List.mem_flatMap, List.mem_map]

theorem Grammar.sound_of_mem_rules [Regex.LawfulSearcher] {g : Grammar} {rule : Rule}
    (h : rule ∈ g.rules) : rule.Sound := by
  obtain ⟨token, -, pattern, -, rfl⟩ := Grammar.mem_rules_iff.mp h
  intro c hit hfind
  rw [Pattern.rule_find] at hfind
  exact Pattern.fits_of_hit? hfind

end Highlight
