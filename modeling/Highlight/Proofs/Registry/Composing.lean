import Highlight.Proofs.Compose.Composed
import Highlight.Registry.Basic

/-!
Sessions that make all their grammars by composing, of those that they are given. All the parts
that builds are put together of do so.
-/

namespace Highlight

def Store.Composed (s : Store) : Prop :=
  ∀ key g, s.find? key = some g → g.Composed

namespace Session

variable {α β : Type}

/-- A session that registers composed grammars only and ends as `P` says, as long as the grammars
that it is given are composed. -/
def Composes (P : α → Prop) : Session α → Prop
  | .done value => P value
  | .require _ next => ∀ answer, Yields Grammar.Composed answer → (next answer).Composes P
  | .register grammar next => grammar.Composed ∧ next.Composes P
  | .addSynonym _ _ next => next.Composes P
  | .inspect next => ∀ store : Store, store.Composed → (next store).Composes P
  | .emit _ next => next.Composes P

theorem Composes.andThen {P : α → Prop} {Q : β → Prop} {session : Session α}
    {f : α → Session β} (h : session.Composes P) (hf : ∀ a, P a → (f a).Composes Q) :
    (session.andThen f).Composes Q := by
  induction session with
  | done value => exact hf value h
  | require name next ih => exact fun answer hanswer => ih answer (h answer hanswer)
  | register grammar next ih => exact ⟨h.1, ih h.2⟩
  | addSynonym synonym target next ih => exact ih h
  | inspect next ih => exact fun store hstore => ih store (h store hstore)
  | emit event next ih => exact ih h

end Session

def Locator.Composed (locator : Locator) : Prop :=
  ∀ name, (locator.grammar name).Composes fun answer =>
    ∀ result, answer = some result → Yields Grammar.Composed result

namespace Build

variable {α β : Type} {P : α → Prop} {Q : β → Prop}

/-- A build that makes its grammars by composing and whose result, if there is one, is as `P`
says. -/
structure Composes (P : α → Prop) (build : Build α) : Prop where
  run : build.run.Composes (Yields P)

theorem Composes.bind {build : Build α} {f : α → Build β} (h : build.Composes P)
    (hf : ∀ a, P a → (f a).Composes Q) : Composes Q (build >>= f) := by
  refine ⟨Session.Composes.andThen h.run ?_⟩
  rintro (e | a) hresult
  · exact Yields.error e
  · exact (hf a (hresult a rfl)).run

theorem composes_pure {a : α} (h : P a) : Composes P (pure a) :=
  ⟨Yields.ok h⟩

theorem composes_ofExcept {result : Except GrammarError α} (h : Yields P result) :
    (ofExcept result).Composes P :=
  ⟨h⟩

theorem composes_require (name : String) : (require name).Composes Grammar.Composed :=
  ⟨fun _ hanswer => hanswer⟩

theorem composes_emit (event : Event) : (emit event).Composes fun _ => True :=
  ⟨Yields.ok trivial⟩

variable {tokens : List Token} (htokens : ∀ t ∈ tokens, t.Composed)
include htokens

theorem composes_derive {σ : Type} {base : Grammar} (hbase : base.Composed) (name : String)
    (sieve : Sieve σ) : (derive base name sieve tokens).Composes Grammar.Composed :=
  (composes_emit _).bind fun _ _ => composes_pure (.derive name sieve hbase htokens)

theorem composes_extendFiltered {σ : Type} (base name : String) (sieve : Sieve σ) :
    (extendFiltered base name sieve tokens).Composes Grammar.Composed :=
  (composes_require base).bind fun _ hbase => composes_derive htokens hbase name sieve

theorem composes_extend (base name : String) :
    (extend base name tokens).Composes Grammar.Composed :=
  composes_extendFiltered htokens base name .all

theorem composes_insert {g : Grammar} (hg : g.Composed) (side : Side) (anchor : String) :
    (insert g side anchor tokens).Composes Grammar.Composed :=
  (composes_ofExcept fun _ hinsert => .insert hg htokens hinsert).bind fun _ h =>
    (composes_emit _).bind fun _ _ => composes_pure h

omit htokens

theorem composes_replacePatterns {g : Grammar} (hg : g.Composed) (path : String)
    {patterns : List Pattern} (hpatterns : ∀ p ∈ patterns, p.Composed) :
    (replacePatterns g path patterns).Composes Grammar.Composed :=
  (composes_ofExcept fun _ hreplace => .replacePatterns hg hpatterns hreplace).bind fun _ h =>
    (composes_emit _).bind fun _ _ => composes_pure h

end Build

end Highlight
