import Highlight.Languages.Bundle
import Highlight.Registry.Run

/-!
Texts in the languages that come with the library. A language that is built on no other is tokenized
by its own grammar (`exists_tokenizeBy`).
-/

namespace Highlight.Languages

variable {name : String} {g : Grammar}

/-- The first request for a grammar builds and publishes it. -/
theorem exists_require (hbuild : build? name = some (Build.ofExcept (.ok g)))
    (hcanonical : registry.canonical name = name) :
    ∃ r, registry.require registry.load name = some (.ok g, r) := by
  have hlocated : locator.grammar name = .done (some (.ok g)) := by
    simp only [locator, hbuild]
    rfl
  have hpublished : registry.published? name = none := rfl
  have hload : registry.load = locator.load (1 + 1) := rfl
  have hsome : registry.locator.isSome = true := rfl
  have hanswer : (Locator.settle name (some (.ok g)) (registry.noteAsked name)).1 = .ok g := by
    have hnone : registry.store.grammars.find? name = none := rfl
    simp only [Locator.settle, Registry.publishLocated, Registry.emit, Registry.noteAsked,
      Store.find?, Table.find?_insertNew, hnone, if_true, Option.getD_some, Option.getD_none]
  refine ⟨(Locator.settle name (some (.ok g)) (registry.noteAsked name)).2, ?_⟩
  rw [Registry.require, hpublished, hload]
  simp only [hsome, if_true, hcanonical, Locator.load, hlocated, Session.runWith]
  exact congrArg some (Prod.ext hanswer rfl)

theorem exists_tokenizeBy (hbuild : build? name = some (Build.ofExcept (.ok g)))
    (hcanonical : registry.canonical name = name) {text : String} {nodes : List Node}
    (hnodes : g.tokenize text = .ok nodes) :
    ∃ r, registry.run (Session.tokenizeBy name text) = some (.ok (.ok nodes), r) := by
  obtain ⟨r, hrequire⟩ := exists_require hbuild hcanonical
  refine ⟨r.emit (.tokenized g.name (Text.width text.toList) nodes.length), ?_⟩
  have htokenize : Session.tokenize g text =
      .emit (.tokenized g.name (Text.width text.toList) nodes.length) (.done (.ok nodes)) := by
    simp only [Session.tokenize, hnodes]
  rw [Registry.run, Session.tokenizeBy, Session.runWith, hrequire]
  simp only [Option.bind_eq_bind, Option.bind_some, htokenize]
  rfl

end Highlight.Languages
