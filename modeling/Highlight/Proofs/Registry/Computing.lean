import Highlight.Proofs.Registry.Reading
import Highlight.Registry.Run

/-!
Builds that publish nothing themselves. Such a build comes to an answer and leaves the store as the
requests in it have left it (`Build.Computes`). A session without requests comes to the same answer
in every registry (`Session.Reads.exists_answer`).
-/

namespace Highlight

namespace Session

variable {α β : Type}

theorem runWith_andThen (load : Load) (session : Session α) (f : α → Session β) (r : Registry) :
    (session.andThen f).runWith load r =
      (session.runWith load r).bind fun (a, r') => (f a).runWith load r' := by
  induction session generalizing r with
  | done value => rfl
  | require name next ih =>
      rw [andThen, runWith, runWith]
      cases r.require load name with
      | none => rfl
      | some answered => exact ih answered.1 answered.2
  | register grammar next ih => exact ih (r.register grammar)
  | addSynonym synonym target next ih => exact ih (r.addSynonym synonym target)
  | inspect next ih => exact ih r.store r
  | emit event next ih => exact ih (r.emit event)

theorem Reads.exists_answer {session : Session α} (h : session.Reads fun _ => False) :
    ∃ a, ∀ load r, ∃ r', session.runWith load r = some (a, r') ∧ r'.store = r.store := by
  induction session with
  | done value => exact ⟨value, fun load r => ⟨r, rfl, rfl⟩⟩
  | require name next ih => exact h.1.elim
  | register grammar next ih => exact h.elim
  | addSynonym synonym target next ih => exact h.elim
  | inspect next ih => exact h.elim
  | emit event next ih =>
      obtain ⟨a, hruns⟩ := ih h
      exact ⟨a, fun load r => hruns load (r.emit event)⟩

end Session

namespace Build

variable {α β : Type} {load : Load} {r : Registry} {store : Store}

theorem run_bind (build : Build α) (f : α → Build β) :
    (build >>= f).run = build.run.andThen fun
      | .ok a => (f a).run
      | .error e => .done (.error e) := by
  show build.run.andThen (ExceptT.bindCont f) = _
  congr 1
  funext answer
  cases answer <;> rfl

theorem ofExcept_ok_bind (a : α) (f : α → Build β) : (ofExcept (.ok a) >>= f) = f a := rfl

/-- A build comes to an answer, and to a registry with a store. -/
def Computes (load : Load) (r : Registry) (build : Build α) (answer : Except GrammarError α)
    (store : Store) : Prop :=
  ∃ r', build.run.runWith load r = some (answer, r') ∧ r'.store = store

theorem Computes.bind {build : Build α} {f : α → Build β} {answer : Except GrammarError α}
    {k : α → Except GrammarError β} (h : build.Computes load r answer store)
    (hf : ∀ a r', r'.store = store → (f a).Computes load r' (k a) store) :
    Computes load r (build >>= f) (answer >>= k) store := by
  obtain ⟨r', hrun, hstore⟩ := h
  rw [Computes, run_bind, Session.runWith_andThen, hrun]
  cases answer with
  | error e => exact ⟨r', rfl, hstore⟩
  | ok a => exact hf a r' hstore

theorem computes_insert (g : Grammar) (side : Side) (anchor : String) (tokens : List Token) :
    (insert g side anchor tokens).Computes load r (g.insert side anchor tokens) r.store := by
  rw [insert]
  cases g.insert side anchor tokens with
  | error e => exact ⟨r, rfl, rfl⟩
  | ok other => exact ⟨r.emit (.inserted g.name anchor side tokens.length), rfl, rfl⟩

section Extending

variable {σ : Type} {base name : String} {sieve : Sieve σ} {tokens : List Token}

theorem computes_extendFiltered {r' : Registry} {g : Grammar}
    (h : r.require load base = some (.ok g, r')) :
    (extendFiltered base name sieve tokens).Computes load r
      (.ok (g.derive name sieve tokens).grammar) r'.store := by
  let d := g.derive name sieve tokens
  refine ⟨r'.emit (.derived g.name name d.dropped d.overridden d.appended), ?_, rfl⟩
  show (Session.require base _).runWith load r = _
  rw [Session.runWith, h]
  rfl

/-- A grammar cannot be extended where the request for it comes to no end. -/
theorem runWith_extendFiltered_eq_none {f : Grammar → Build Grammar}
    (h : r.require load base = none) :
    (extendFiltered base name sieve tokens >>= f).run.runWith load r = none := by
  show (Session.require base _).runWith load r = none
  rw [Session.runWith, h]
  rfl

end Extending

end Build

end Highlight
