import Highlight.Registry.Run

/-!
What happens in the course of a session, turn by turn, in the registry and between it and its
locator. The turns go with the outcome of a session however deep the requests of the locator go, so
that a session has turns exactly if it comes to an end within some depth, and then it comes to the
same end within any greater one (`Session.runs_of_runWith`, `Session.Runs.exists_depth`).
-/

namespace Highlight

inductive Turn where
  /-- A grammar is requested by a name. -/
  | called (name : String)
  /-- The locator is asked to build a grammar. -/
  | asked (name : String)
  | answered (name : String) (given : Option (Except GrammarError Grammar))
  /-- A request comes to its answer, after what has happened since it was made. -/
  | returned (name : String) (during : List Turn) (answer : Except GrammarError Grammar)
  | renamed (synonym : String)

/-- The locator is asked, and answers after some turns of its own. -/
def Turn.exchange (name : String) (talk : List Turn)
    (given : Option (Except GrammarError Grammar)) : List Turn :=
  .asked name :: (talk ++ [.answered name given])

def Turn.asked? : Turn → Option String
  | .asked name => some name
  | _ => none

theorem Turn.filterMap_asked?_exchange (name : String) (talk : List Turn)
    (given : Option (Except GrammarError Grammar)) :
    (Turn.exchange name talk given).filterMap Turn.asked? =
      name :: talk.filterMap Turn.asked? := by
  simp [Turn.exchange, Turn.asked?]

theorem Locator.asked_settle (name : String) (given : Option (Except GrammarError Grammar))
    (r : Registry) : (Locator.settle name given r).2.asked = r.asked := by
  rcases given with _ | e | grammar
  · rfl
  · rfl
  · rfl

namespace Session

/-- How a session comes to its end, if `locator` builds what has not been published. A locator's own
session takes place while it is asked. -/
inductive Runs (locator : Locator) :
    {α : Type} → Session α → Registry → List Turn → α → Registry → Prop
  | done {α : Type} (a : α) (r : Registry) : Runs locator (.done a) r [] a r
  | published {α : Type} {name : String} {next : Except GrammarError Grammar → Session α}
      {r r' : Registry} {grammar : Grammar} {turns : List Turn} {a : α}
      (found : r.published? name = some grammar)
      (rest : Runs locator (next (.ok grammar)) r turns a r') :
      Runs locator (.require name next) r
        (.called name :: .returned name [] (.ok grammar) :: turns) a r'
  | unlocated {α : Type} {name : String} {next : Except GrammarError Grammar → Session α}
      {r r' : Registry} {turns : List Turn} {a : α} (missing : r.published? name = none)
      (unlocated : r.locator.isSome = false)
      (rest : Runs locator (next (.error (.unknownGrammar (r.canonical name)))) r turns a r') :
      Runs locator (.require name next) r
        (.called name ::
          .returned name [] (.error (.unknownGrammar (r.canonical name))) :: turns) a r'
  | located {α : Type} {name : String} {next : Except GrammarError Grammar → Session α}
      {r between r' : Registry} {talk turns : List Turn}
      {given : Option (Except GrammarError Grammar)} {a : α}
      (missing : r.published? name = none) (located : r.locator.isSome = true)
      (build : Runs locator (locator.grammar (r.canonical name))
        (r.noteAsked (r.canonical name)) talk given between)
      (rest : Runs locator (next (Locator.settle (r.canonical name) given between).1)
        (Locator.settle (r.canonical name) given between).2 turns a r') :
      Runs locator (.require name next) r
        (.called name :: (Turn.exchange (r.canonical name) talk given ++
          .returned name (Turn.exchange (r.canonical name) talk given)
            (Locator.settle (r.canonical name) given between).1 :: turns)) a r'
  | register {α : Type} {grammar : Grammar} {next : Session α} {r r' : Registry}
      {turns : List Turn} {a : α} (rest : Runs locator next (r.register grammar) turns a r') :
      Runs locator (.register grammar next) r turns a r'
  | addSynonym {α : Type} {synonym target : String} {next : Session α} {r r' : Registry}
      {turns : List Turn} {a : α}
      (rest : Runs locator next (r.addSynonym synonym target) turns a r') :
      Runs locator (.addSynonym synonym target next) r (.renamed synonym :: turns) a r'
  | inspect {α : Type} {next : Store → Session α} {r r' : Registry} {turns : List Turn} {a : α}
      (rest : Runs locator (next r.store) r turns a r') :
      Runs locator (.inspect next) r turns a r'
  | emit {α : Type} {event : Event} {next : Session α} {r r' : Registry} {turns : List Turn}
      {a : α} (rest : Runs locator next (r.emit event) turns a r') :
      Runs locator (.emit event next) r turns a r'

variable {α : Type} {locator : Locator} {session : Session α} {r r' : Registry} {a : α}

/-- The registry has a record of what the locator was asked for. -/
theorem Runs.asked_eq {turns : List Turn} (h : session.Runs locator r turns a r') :
    r'.asked = (turns.filterMap Turn.asked?).reverse ++ r.asked := by
  induction h with
  | done => rfl
  | published _ _ ih | unlocated _ _ _ ih | register _ ih | addSynonym _ ih | inspect _ ih
  | emit _ ih => exact ih
  | located _ _ _ _ ihbuild ih =>
      rw [ih, Locator.asked_settle, ihbuild]
      simp [List.filterMap_cons, Turn.asked?, Turn.filterMap_asked?_exchange, Registry.noteAsked]

/-- A session that comes to an end does so within all depths that are great enough. -/
theorem Runs.exists_depth {turns : List Turn} (h : session.Runs locator r turns a r') :
    ∃ depth, ∀ deeper, depth ≤ deeper →
      session.runWith (locator.load deeper) r = some (a, r') := by
  induction h with
  | done => exact ⟨0, fun _ _ => rfl⟩
  | published found _ ih =>
      obtain ⟨depth, hrest⟩ := ih
      refine ⟨depth, fun deeper hle => ?_⟩
      rw [runWith, Registry.require, found]
      exact hrest deeper hle
  | unlocated missing unlocated _ ih =>
      obtain ⟨depth, hrest⟩ := ih
      refine ⟨depth, fun deeper hle => ?_⟩
      simp only [runWith, Registry.require, missing, unlocated]
      exact hrest deeper hle
  | located missing located _ _ ihbuild ih =>
      obtain ⟨depth, hbuild⟩ := ihbuild
      obtain ⟨depth', hrest⟩ := ih
      refine ⟨max (depth + 1) depth', fun deeper hle => ?_⟩
      obtain ⟨hle, hle'⟩ := Nat.max_le.mp hle
      obtain ⟨deeper, rfl⟩ := Nat.exists_eq_add_of_le' (Nat.le_of_add_left_le hle)
      simp only [runWith, Registry.require, missing, located, if_true, Locator.load,
        hbuild deeper (Nat.le_of_succ_le_succ hle)]
      exact hrest (deeper + 1) hle'
  | register _ ih | addSynonym _ ih | inspect _ ih | emit _ ih => exact ih

end Session

/-- A way to get grammars by which all that it gets is built in some turns of the locator. -/
def Load.Builds (locator : Locator) (load : Load) : Prop :=
  ∀ name r answer r', load name r = some (answer, r') →
    ∃ talk given between,
      (locator.grammar name).Runs locator (r.noteAsked name) talk given between ∧
        answer = (Locator.settle name given between).1 ∧
        r' = (Locator.settle name given between).2

namespace Session

variable {α : Type} {locator : Locator} {session : Session α} {r r' : Registry} {a : α}

theorem runs_of_builds {load : Load} (hload : load.Builds locator)
    (h : session.runWith load r = some (a, r')) :
    ∃ turns, session.Runs locator r turns a r' := by
  induction session generalizing r with
  | done value =>
      cases h
      exact ⟨[], .done _ _⟩
  | require name next ih =>
      obtain ⟨⟨answer, between⟩, hrequire, hnext⟩ := Option.bind_eq_some_iff.mp h
      obtain ⟨turns, hturns⟩ := ih answer hnext
      unfold Registry.require at hrequire
      split at hrequire
      next grammar found =>
        cases hrequire
        exact ⟨_, .published found hturns⟩
      next missing =>
        split at hrequire
        next located =>
          obtain ⟨talk, given, built, hbuild, rfl, rfl⟩ := hload _ _ _ _ hrequire
          exact ⟨_, .located missing located hbuild hturns⟩
        next unlocated =>
          cases hrequire
          exact ⟨_, .unlocated missing (by simpa using unlocated) hturns⟩
  | register grammar next ih =>
      obtain ⟨turns, hturns⟩ := ih h
      exact ⟨turns, .register hturns⟩
  | addSynonym synonym target next ih =>
      obtain ⟨turns, hturns⟩ := ih h
      exact ⟨_, .addSynonym hturns⟩
  | inspect next ih =>
      obtain ⟨turns, hturns⟩ := ih r.store h
      exact ⟨turns, .inspect hturns⟩
  | emit event next ih =>
      obtain ⟨turns, hturns⟩ := ih h
      exact ⟨turns, .emit hturns⟩

theorem builds_load (locator : Locator) (depth : Nat) :
    Load.Builds locator (locator.load depth) := by
  induction depth with
  | zero =>
      intro name r answer r' h
      cases h
  | succ depth ih =>
      intro name r answer r' h
      obtain ⟨⟨given, between⟩, hbuild, hsettle⟩ := Option.bind_eq_some_iff.mp h
      obtain ⟨talk, htalk⟩ := runs_of_builds ih hbuild
      have houtcome := Option.some.inj hsettle
      exact ⟨talk, given, between, htalk, congrArg Prod.fst houtcome.symm,
        congrArg Prod.snd houtcome.symm⟩

/-- What a session comes to within some depth, it comes to by some turns. -/
theorem runs_of_runWith {depth : Nat} (h : session.runWith (locator.load depth) r = some (a, r')) :
    ∃ turns, session.Runs locator r turns a r' :=
  runs_of_builds (builds_load locator depth) h

end Session

end Highlight
