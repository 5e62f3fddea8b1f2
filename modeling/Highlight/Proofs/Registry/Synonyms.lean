import Highlight.Languages.Bundle
import Highlight.Registry.Run

/-!
Synonyms. A name that is not published stands for another in a single step: a synonym is answered by
what its target is as that is spelt, whatever the target stands for itself
(`Registry.require_synonym`).
-/

namespace Highlight.Registry

variable {r : Registry} {name synonym target : String}

theorem canonical_addSynonym (r : Registry) (synonym target name : String) :
    (r.addSynonym synonym target).canonical name =
      if name = synonym then target else r.canonical name := by
  simp only [canonical, addSynonym, emit, Table.find?_insert]
  by_cases h : name = synonym
  · simp only [if_pos h]
  · simp only [if_neg h]

theorem run_require (r : Registry) (name : String) :
    r.run (.require name .done) = r.require r.load name := by
  rw [run, Session.runWith]
  cases r.require r.load name with
  | none => rfl
  | some outcome => rfl

/-- Answer a request by a name as it is spelt: what is published under it, or else what `load`
gets for it. -/
def requireSpelt (load : Load) (name : String) (r : Registry) :
    Option (Except GrammarError Grammar × Registry) :=
  match r.store.find? name with
  | some grammar => some (.ok grammar, r)
  | none =>
      if r.locator.isSome then load name r else some (.error (.unknownGrammar name), r)

/-- A name that is not published is answered by what it stands for, as that is spelt. -/
theorem require_eq_requireSpelt_canonical (load : Load) (h : r.store.find? name = none) :
    r.require load name = r.requireSpelt load (r.canonical name) := by
  have hpublished : r.published? name = r.store.find? (r.canonical name) := by
    simp only [published?, h]
  rw [require, hpublished]
  rfl

/-- A name that is published or stands for itself is answered as it is spelt. -/
theorem require_eq_requireSpelt (load : Load)
    (h : r.store.contains name = true ∨ r.canonical name = name) :
    r.require load name = r.requireSpelt load name := by
  cases hfind : r.store.find? name with
  | some grammar =>
      rw [require, requireSpelt, published?, hfind]
  | none =>
      have hcontains : r.store.contains name = false := by
        rw [Store.contains, Table.contains, Option.isSome_eq_false_iff, Option.isNone_iff_eq_none]
        exact hfind
      have hcanonical : r.canonical name = name := by
        rcases h with h | h
        · simp [hcontains] at h
        · exact h
      rw [require_eq_requireSpelt_canonical load hfind, hcanonical]

/-- A synonym that is not published itself is answered as its target is spelt. So it is answered
like its target, if that is published or stands for itself. -/
theorem require_synonym {α : Type} (h : r.store.find? synonym = none) (target : String)
    (next : Except GrammarError Grammar → Session α) :
    let named := r.addSynonym synonym target
    named.run (.require synonym .done) = named.requireSpelt named.load target ∧
      (named.store.contains target = true ∨ named.canonical target = target →
        named.run (.require synonym next) = named.run (.require target next)) := by
  intro named
  have hspelt : named.require named.load synonym = named.requireSpelt named.load target := by
    have hnone : named.store.find? synonym = none := h
    rw [require_eq_requireSpelt_canonical _ hnone, canonical_addSynonym, if_pos rfl]
  constructor
  · rw [run_require, hspelt]
  · intro htarget
    rw [run, run, Session.runWith, Session.runWith, hspelt,
      require_eq_requireSpelt named.load htarget]

theorem require_synonym_json :
    let named := Languages.registry.addSynonym "manifest" "json"
    Languages.registry.store.find? "manifest" = none ∧ named.canonical "json" = "json" ∧
      named.run (.require "manifest" .done) = named.run (.require "json" .done) ∧
      ((named.run (.require "manifest" .done)).bind fun outcome =>
        outcome.1.toOption.map (·.name)) = some "json" := by
  intro named
  have hstands : named.canonical "json" = "json" := by decide
  obtain ⟨-, hlike⟩ := require_synonym (r := Languages.registry) rfl "json" Session.done
  exact ⟨rfl, hstands, hlike (.inr hstands), by decide +kernel⟩

/-- A synonym for a synonym comes to nothing, although its target is answered. -/
theorem not_require_synonym_of_synonym :
    ¬ ∀ (r : Registry) (synonym target : String), r.store.find? synonym = none →
      ((r.addSynonym synonym target).run (.require synonym .done)).map (·.1) =
        ((r.addSynonym synonym target).run (.require target .done)).map (·.1) := by
  intro h
  have halike := h ((empty.register (.empty "c")).addSynonym "b" "c") "a" "b" rfl
  have hnames := congrArg (Option.map fun answer => answer.toOption.map (·.name)) halike
  exact absurd hnames (by decide)

end Highlight.Registry
