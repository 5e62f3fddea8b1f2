import Highlight.Proofs.Languages.Composed
import Highlight.Registry.Run

/-!
What a registry publishes and hands out. With users and locators that make grammars by composing,
nothing but well-formed grammars comes of any session (`Registry.wellFormed_of_run`).
-/

namespace Highlight

/-- A way to get grammars that keeps all that is published composed. -/
def Load.Composes (load : Load) : Prop :=
  ∀ name r answer r', r.store.Composed → load name r = some (answer, r') →
    Yields Grammar.Composed answer ∧ r'.store.Composed

namespace Registry

variable {r r' : Registry}

theorem composed_register (h : r.store.Composed) {grammar : Grammar} (hgrammar : grammar.Composed) :
    (r.register grammar).store.Composed := by
  intro key g hfind
  simp only [register, emit, Store.find?, Table.find?_insert] at hfind
  split at hfind
  next =>
    cases hfind
    exact hgrammar
  next => exact h key g hfind

theorem composed_publishLocated (h : r.store.Composed) (name : String) {grammar : Grammar}
    (hgrammar : grammar.Composed) : (r.publishLocated name grammar).store.Composed := by
  intro key g hfind
  simp only [publishLocated, Store.find?, Table.find?_insertNew] at hfind
  split at hfind
  next =>
    cases hfound : r.store.grammars.find? name with
    | none =>
        rw [hfound] at hfind
        cases hfind
        exact hgrammar
    | some found =>
        rw [hfound] at hfind
        cases hfind
        exact h name _ hfound
  next => exact h key g hfind

theorem composed_of_published? (h : r.store.Composed) {name : String} {g : Grammar}
    (hpublished : r.published? name = some g) : g.Composed := by
  unfold published? at hpublished
  split at hpublished
  next found hfind =>
    cases hpublished
    exact h name _ hfind
  next => exact h _ g hpublished

theorem composed_of_require {load : Load} (hload : load.Composes) {name : String}
    {answer : Except GrammarError Grammar} (h : r.store.Composed)
    (hrequire : r.require load name = some (answer, r')) :
    Yields Grammar.Composed answer ∧ r'.store.Composed := by
  unfold require at hrequire
  split at hrequire
  next grammar hpublished =>
    cases hrequire
    exact ⟨.ok (composed_of_published? h hpublished), h⟩
  next =>
    split at hrequire
    next => exact hload _ _ _ _ h hrequire
    next =>
      cases hrequire
      exact ⟨.error _, h⟩

theorem composed_settle (name : String) {answer : Option (Except GrammarError Grammar)}
    (h : r.store.Composed)
    (hanswer : ∀ result, answer = some result → Yields Grammar.Composed result) :
    Yields Grammar.Composed (Locator.settle name answer r).1 ∧
      (Locator.settle name answer r).2.store.Composed := by
  rcases answer with _ | e | grammar
  · exact ⟨.error _, h⟩
  · exact ⟨.error _, h⟩
  · have hgrammar : grammar.Composed := hanswer _ rfl grammar rfl
    let published := (r.emit (.loaded name grammar.name)).publishLocated name grammar
    have hstore : published.store.Composed := composed_publishLocated h name hgrammar
    refine ⟨.ok ?_, hstore⟩
    show ((published.store.find? name).getD grammar).Composed
    cases hfind : published.store.find? name with
    | none => exact hgrammar
    | some found => exact hstore name found hfind

end Registry

namespace Session

/-- Each request of a composing session leaves all that is published composed. -/
theorem Composes.of_runWith {α : Type} {P : α → Prop} {load : Load} (hload : load.Composes)
    {session : Session α} (hsession : session.Composes P) {r r' : Registry} {a : α}
    (h : r.store.Composed) (hrun : session.runWith load r = some (a, r')) :
    P a ∧ r'.store.Composed := by
  induction session generalizing r with
  | done value =>
      cases hrun
      exact ⟨hsession, h⟩
  | require name next ih =>
      obtain ⟨⟨answer, between⟩, hrequire, hnext⟩ := Option.bind_eq_some_iff.mp hrun
      obtain ⟨hanswer, hbetween⟩ := Registry.composed_of_require hload h hrequire
      exact ih answer (hsession answer hanswer) hbetween hnext
  | register grammar next ih =>
      exact ih hsession.2 (Registry.composed_register h hsession.1) hrun
  | addSynonym synonym target next ih => exact ih hsession (r := r.addSynonym synonym target) h hrun
  | inspect next ih => exact ih r.store (hsession r.store h) h hrun
  | emit event next ih => exact ih hsession (r := r.emit event) h hrun

end Session

theorem Locator.Composed.composes_load {locator : Locator} (h : locator.Composed) (depth : Nat) :
    (locator.load depth).Composes := by
  induction depth with
  | zero =>
      intro name r answer r' _ hload
      cases hload
  | succ depth ih =>
      intro name r answer r' hr hload
      obtain ⟨⟨given, between⟩, hbuild, hsettle⟩ := Option.bind_eq_some_iff.mp hload
      obtain ⟨hgiven, hbetween⟩ := (h name).of_runWith ih (r := r.noteAsked name) hr hbuild
      have hsettled := Registry.composed_settle name hbetween hgiven
      rwa [Option.some.inj hsettle] at hsettled

namespace Registry

/-- However a registry that starts empty is used, all grammars that it publishes are well-formed,
and so are those that its users end with, as long as they and the locator make grammars by
composing only. -/
theorem wellFormed_of_run {α : Type} {holds : α → List Grammar} {session : Session α}
    {start r : Registry} {a : α} (hempty : start.store = .empty)
    (hlocator : ∀ locator, start.locator = some locator →
      locator.Composed ∨ locator = Languages.locator)
    (hsession : session.Composes fun a => ∀ g ∈ holds a, g.Composed)
    (hrun : start.run session = some (a, r)) :
    (∀ g ∈ holds a, g.WellFormed) ∧ ∀ key g, r.store.find? key = some g → g.WellFormed := by
  have hload : start.load.Composes := by
    unfold load
    split
    next locator hsome =>
      rcases hlocator locator hsome with hcomposed | rfl
      · exact hcomposed.composes_load locator.depth
      · exact Languages.composed_locator.composes_load Languages.locator.depth
    next =>
      intro name r answer r' hr h
      cases h
      exact ⟨.error _, hr⟩
  have hstart : start.store.Composed := by
    rw [hempty]
    rintro key g ⟨⟩
  obtain ⟨hholds, hstore⟩ := hsession.of_runWith hload hstart hrun
  exact ⟨fun g hg => (hholds g hg).wellFormed, fun key g hg => (hstore key g hg).wellFormed⟩

theorem wellFormed_of_run_css :
    ∃ g r, Languages.registry.run (.require "css" .done) = some (.ok g, r) ∧ g.WellFormed ∧
      (g.insideAt? "atrule").map (·.size) = some 9 ∧
      ∀ key g', r.store.find? key = some g' → g'.WellFormed := by
  have hcheck : ((Languages.registry.run (.require "css" .done)).bind (·.1.toOption)).any
      (fun g => (g.insideAt? "atrule").map (·.size) == some 9) = true := by decide +kernel
  have hsession : (Session.require "css" .done).Composes
      fun answer => ∀ g ∈ answer.toOption.toList, g.Composed := by
    intro answer hanswer g hg
    cases answer with
    | error e => cases hg
    | ok found => exact hanswer g (congrArg Except.ok (List.mem_singleton.mp hg).symm)
  cases hrun : Languages.registry.run (.require "css" .done) with
  | none => simp [hrun] at hcheck
  | some found =>
      obtain ⟨answer, r⟩ := found
      have hlocator : ∀ locator, Languages.registry.locator = some locator →
          locator.Composed ∨ locator = Languages.locator := by
        rintro locator ⟨⟩
        exact .inr rfl
      obtain ⟨hheld, hpublished⟩ := wellFormed_of_run rfl hlocator hsession hrun
      cases answer with
      | error e => simp [hrun, Except.toOption] at hcheck
      | ok g =>
          refine ⟨g, r, rfl, hheld g (by simp [Except.toOption]), ?_, hpublished⟩
          simpa [hrun, Except.toOption] using hcheck

end Registry

end Highlight
