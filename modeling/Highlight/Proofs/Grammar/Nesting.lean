import Highlight.Grammar.Basic

/-!
Grammars inside grammars. What holds of a grammar whenever it holds of those inside its patterns
holds of all grammars (`Grammar.inside_induction`).
-/

namespace Highlight.Grammar

theorem sizeOf_inside_lt {g h : Grammar} {token : Token} {pattern : Pattern}
    (htoken : token ∈ g.tokens) (hpattern : pattern ∈ token.patterns)
    (hinside : pattern.inside = some h) : sizeOf h < sizeOf g := by
  have htokens := List.sizeOf_lt_of_mem htoken
  have hpatterns := List.sizeOf_lt_of_mem hpattern
  obtain ⟨name, tokens, parent⟩ := g
  obtain ⟨tokenName, patterns⟩ := token
  obtain ⟨regex, lookbehind, global, label, inside⟩ := pattern
  simp only at hinside htokens hpatterns
  subst hinside
  simp only [Grammar.mk.sizeOf_spec, Token.mk.sizeOf_spec, Pattern.mk.sizeOf_spec,
    Option.some.sizeOf_spec] at htokens hpatterns ⊢
  omega

theorem inside_induction {P : Grammar → Prop}
    (step : ∀ g : Grammar, (∀ token ∈ g.tokens, ∀ pattern ∈ token.patterns, ∀ h,
      pattern.inside = some h → P h) → P g) (g : Grammar) : P g := by
  induction hsize : sizeOf g using Nat.strongRecOn generalizing g with
  | ind size ih =>
      subst hsize
      apply step
      intro token htoken pattern hpattern h hinside
      exact ih _ (sizeOf_inside_lt htoken hpattern hinside) h rfl

/-- `h.Within g` if `h` is `g` itself or a grammar inside it, at any depth. -/
inductive Within : Grammar → Grammar → Prop
  | refl (g : Grammar) : Within g g
  | inside {g h k : Grammar} {token : Token} {pattern : Pattern} (token_mem : token ∈ g.tokens)
      (pattern_mem : pattern ∈ token.patterns) (inside_eq : pattern.inside = some h)
      (within : Within k h) : Within k g

/-- A property of a grammar and of all grammars inside it. -/
def Throughout (P : Grammar → Prop) (g : Grammar) : Prop :=
  ∀ h : Grammar, h.Within g → P h

theorem throughout_iff {P : Grammar → Prop} {g : Grammar} :
    g.Throughout P ↔ P g ∧ ∀ token ∈ g.tokens, ∀ pattern ∈ token.patterns, ∀ h,
      pattern.inside = some h → h.Throughout P := by
  constructor
  · intro hg
    refine ⟨hg g (.refl g), ?_⟩
    intro token htoken pattern hpattern h hinside k hk
    exact hg k (.inside htoken hpattern hinside hk)
  · rintro ⟨hg, hinsides⟩ k hk
    cases hk with
    | refl => exact hg
    | inside htoken hpattern hinside hwithin =>
        exact hinsides _ htoken _ hpattern _ hinside k hwithin

end Highlight.Grammar
