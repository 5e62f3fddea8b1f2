import Highlight.Registry.Session

/-!
Sessions that only read: they ask for grammars, and change nothing else in a registry. What such a
session ends with depends on the answers alone (`Session.valueBy`).
-/

namespace Highlight

namespace Session

variable {α β : Type}

/-- A session that asks only for names as `P` says, whatever it is answered, and makes no other
requests. -/
def Reads (P : String → Prop) : Session α → Prop
  | .done _ => True
  | .require name next => P name ∧ ∀ answer, (next answer).Reads P
  | .register _ _ => False
  | .addSynonym _ _ _ => False
  | .inspect _ => False
  | .emit _ next => next.Reads P

/-- What a session that only reads ends with, given the answers for all names. -/
def valueBy (answers : String → Except GrammarError Grammar) : Session α → Option α
  | .done value => some value
  | .require name next => (next (answers name)).valueBy answers
  | .register _ _ => none
  | .addSynonym _ _ _ => none
  | .inspect _ => none
  | .emit _ next => next.valueBy answers

variable {P Q : String → Prop}

theorem Reads.andThen {session : Session α} {f : α → Session β} (h : session.Reads P)
    (hf : ∀ a, (f a).Reads P) : (session.andThen f).Reads P := by
  induction session with
  | done value => exact hf value
  | require name next ih => exact ⟨h.1, fun answer => ih answer (h.2 answer)⟩
  | register grammar next ih => exact h.elim
  | addSynonym synonym target next ih => exact h.elim
  | inspect next ih => exact h.elim
  | emit event next ih => exact ih h

theorem Reads.mono {session : Session α} (h : session.Reads P) (himp : ∀ name, P name → Q name) :
    session.Reads Q := by
  induction session with
  | done value => trivial
  | require name next ih => exact ⟨himp name h.1, fun answer => ih answer (h.2 answer)⟩
  | register grammar next ih => exact h.elim
  | addSynonym synonym target next ih => exact h.elim
  | inspect next ih => exact h.elim
  | emit event next ih => exact ih h

theorem Reads.valueBy_congr {session : Session α} (h : session.Reads P)
    {answers others : String → Except GrammarError Grammar}
    (heq : ∀ name, P name → answers name = others name) :
    session.valueBy answers = session.valueBy others := by
  induction session with
  | done value => rfl
  | require name next ih =>
      rw [valueBy, valueBy, heq name h.1]
      exact ih _ (h.2 _)
  | register grammar next ih => exact h.elim
  | addSynonym synonym target next ih => exact h.elim
  | inspect next ih => exact h.elim
  | emit event next ih => exact ih h

end Session

namespace Build

variable {α β : Type} {P : String → Prop}

/-- A build that only reads. -/
structure Reads (P : String → Prop) (build : Build α) : Prop where
  run : build.run.Reads P

theorem Reads.bind {build : Build α} {f : α → Build β} (h : build.Reads P)
    (hf : ∀ a, (f a).Reads P) : Reads P (build >>= f) := by
  refine ⟨Session.Reads.andThen h.run ?_⟩
  rintro (e | a)
  · trivial
  · exact (hf a).run

theorem reads_pure (a : α) : Reads P (pure a) :=
  ⟨trivial⟩

theorem reads_ofExcept (result : Except GrammarError α) : (ofExcept result).Reads P :=
  ⟨trivial⟩

theorem reads_emit (event : Event) : (emit event).Reads P :=
  ⟨trivial⟩

theorem reads_require {name : String} (h : P name) : (require name).Reads P :=
  ⟨h, fun _ => trivial⟩

theorem reads_derive {σ : Type} (base : Grammar) (name : String) (sieve : Sieve σ)
    (tokens : List Token) : (derive base name sieve tokens).Reads P :=
  (reads_emit _).bind fun _ => reads_pure _

theorem reads_extendFiltered {σ : Type} {base : String} (h : P base) (name : String)
    (sieve : Sieve σ) (tokens : List Token) :
    (extendFiltered base name sieve tokens).Reads P :=
  (reads_require h).bind fun _ => reads_derive _ _ _ _

theorem reads_extend {base : String} (h : P base) (name : String) (tokens : List Token) :
    (extend base name tokens).Reads P :=
  reads_extendFiltered h name .all tokens

theorem reads_insert (g : Grammar) (side : Side) (anchor : String) (tokens : List Token) :
    (insert g side anchor tokens).Reads P :=
  (reads_ofExcept _).bind fun _ => (reads_emit _).bind fun _ => reads_pure _

theorem reads_replacePatterns (g : Grammar) (path : String) (patterns : List Pattern) :
    (replacePatterns g path patterns).Reads P :=
  (reads_ofExcept _).bind fun _ => (reads_emit _).bind fun _ => reads_pure _

end Build

end Highlight
