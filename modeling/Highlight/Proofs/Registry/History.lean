import Highlight.Registry.Run

/-!
The history of a registry: the grammars that were registered and the answers that the locator
gave, in order. Whatever is done with a registry is a session, in a locator too, so the history
goes through the sessions of locators where they are asked. What is published under a name
depends on nothing else (`Registry.store_of_run`).
-/

namespace Highlight

inductive Publication where
  | registered (grammar : Grammar)
  | answered (name : String) (answer : Option (Except GrammarError Grammar))

namespace Publication

def registered? (key : String) : Publication → Option Grammar
  | .registered grammar => if grammar.name = key then some grammar else none
  | .answered _ _ => none

def located? (key : String) : Publication → Option Grammar
  | .answered name (some (.ok grammar)) => if name = key then some grammar else none
  | _ => none

/-- The grammar of a name that was registered last. -/
def lastRegistered? (history : List Publication) (key : String) : Option Grammar :=
  history.reverse.findSome? (registered? key)

/-- The grammar that the locator gave first for a name, whatever the grammar's own name. -/
def firstLocated? (history : List Publication) (key : String) : Option Grammar :=
  history.findSome? (located? key)

def entry? (history : List Publication) (key : String) : Option Grammar :=
  (lastRegistered? history key).or (firstLocated? history key)

theorem lastRegistered?_append (history later : List Publication) (key : String) :
    lastRegistered? (history ++ later) key =
      (lastRegistered? later key).or (lastRegistered? history key) := by
  simp only [lastRegistered?, List.reverse_append, List.findSome?_append]

theorem firstLocated?_append (history later : List Publication) (key : String) :
    firstLocated? (history ++ later) key =
      (firstLocated? history key).or (firstLocated? later key) := by
  simp only [firstLocated?, List.findSome?_append]

theorem lastRegistered?_eq_none {history : List Publication} {key : String}
    (h : ∀ grammar, .registered grammar ∈ history → grammar.name ≠ key) :
    lastRegistered? history key = none := by
  rw [lastRegistered?, List.findSome?_eq_none_iff]
  intro publication hmem
  cases publication with
  | registered grammar => exact if_neg (h grammar (List.mem_reverse.mp hmem))
  | answered name answer => rfl

end Publication

open Publication

/-- What a request adds to the history. Nothing is asked for that has been published; `past` tells
what comes of asking. -/
def Registry.requireHistory (past : String → Registry → List Publication) (name : String)
    (r : Registry) : List Publication :=
  match r.published? name with
  | some _ => []
  | none => if r.locator.isSome then past (r.canonical name) r else []

def Session.historyWith {α : Type} (past : String → Registry → List Publication) (load : Load) :
    Session α → Registry → List Publication
  | .done _, _ => []
  | .require name next, r =>
      r.requireHistory past name ++
        match r.require load name with
        | none => []
        | some (answer, r) => (next answer).historyWith past load r
  | .register grammar next, r =>
      .registered grammar :: next.historyWith past load (r.register grammar)
  | .addSynonym synonym target next, r => next.historyWith past load (r.addSynonym synonym target)
  | .inspect next, r => (next r.store).historyWith past load r
  | .emit event next, r => next.historyWith past load (r.emit event)

/-- What a request to a locator adds to the history: what happens in building the grammar, and
then the answer. -/
def Locator.history (locator : Locator) : (depth : Nat) → String → Registry → List Publication
  | 0, _, _ => []
  | depth + 1, name, r =>
      let build := locator.grammar name
      build.historyWith (locator.history depth) (locator.load depth) (r.noteAsked name) ++
        match build.runWith (locator.load depth) (r.noteAsked name) with
        | none => []
        | some (answer, _) => [.answered name answer]

namespace Registry

def past (r : Registry) : String → Registry → List Publication :=
  match r.locator with
  | some locator => locator.history locator.depth
  | none => fun _ _ => []

def history {α : Type} (r : Registry) (session : Session α) : List Publication :=
  session.historyWith r.past r.load r

/-- A history leads from what is published in one registry to what is published in another:
the last grammar registered under a name, or else the one that was there, or else the first that
the locator gave. -/
def LeadsTo (r : Registry) (history : List Publication) (r' : Registry) : Prop :=
  ∀ key, r'.store.find? key =
    (lastRegistered? history key).or ((r.store.find? key).or (firstLocated? history key))

namespace LeadsTo

variable {r r' r'' : Registry} {history later : List Publication}

theorem of_grammars_eq (h : r'.store.grammars = r.store.grammars) : r.LeadsTo [] r' := by
  intro key
  simp [Store.find?, h, lastRegistered?, firstLocated?]

theorem append (h : r.LeadsTo history r') (h' : r'.LeadsTo later r'') :
    r.LeadsTo (history ++ later) r'' := by
  intro key
  rw [h' key, h key, lastRegistered?_append, firstLocated?_append]
  simp only [Option.or_assoc]

theorem register (r : Registry) (grammar : Grammar) :
    r.LeadsTo [.registered grammar] (r.register grammar) := by
  intro key
  simp only [Registry.register, emit, Store.find?, Table.find?_insert, lastRegistered?,
    firstLocated?, List.reverse_singleton, List.findSome?_cons, List.findSome?_nil, registered?,
    located?, Option.or_none]
  by_cases hkey : key = grammar.name
  · simp [hkey]
  · simp [hkey, Ne.symm hkey]

/-- The answer of a locator is published where nothing has been published before. -/
theorem settle (name : String) (answer : Option (Except GrammarError Grammar)) (r : Registry) :
    r.LeadsTo [.answered name answer] (Locator.settle name answer r).2 := by
  intro key
  rcases answer with _ | e | grammar
  · simp [Locator.settle, lastRegistered?, registered?, firstLocated?, located?]
  · simp [Locator.settle, lastRegistered?, registered?, firstLocated?, located?]
  · simp only [Locator.settle, publishLocated, emit, Store.find?, Table.find?_insertNew,
      lastRegistered?, firstLocated?, List.reverse_singleton, List.findSome?_cons,
      List.findSome?_nil, registered?, located?, Option.none_or]
    by_cases hkey : key = name
    · subst hkey
      cases r.store.grammars.find? key <;> simp
    · simp [hkey, Ne.symm hkey]

end LeadsTo

/-- A way to get grammars that does to a registry what it adds to the history. -/
def Keeps (past : String → Registry → List Publication) (load : Load) : Prop :=
  ∀ name r answer r', load name r = some (answer, r') → r.LeadsTo (past name r) r'

section

variable {past : String → Registry → List Publication} {load : Load}

theorem leadsTo_of_require (hload : Keeps past load) {name : String} {r r' : Registry}
    {answer : Except GrammarError Grammar} (h : r.require load name = some (answer, r')) :
    r.LeadsTo (r.requireHistory past name) r' := by
  unfold Registry.require at h
  split at h
  next grammar hgrammar =>
    cases h
    rw [requireHistory, hgrammar]
    exact .of_grammars_eq rfl
  next hnone =>
    rw [requireHistory, hnone]
    split at h
    next hlocator =>
      simp only [if_pos hlocator]
      exact hload _ _ _ _ h
    next hlocator =>
      cases h
      simp only [if_neg hlocator]
      exact .of_grammars_eq rfl

/-- Each request of a session does to the registry what it adds to the history. -/
theorem leadsTo_of_runWith (hload : Keeps past load) {α : Type} {session : Session α}
    {r r' : Registry} {a : α} (h : session.runWith load r = some (a, r')) :
    r.LeadsTo (session.historyWith past load r) r' := by
  induction session generalizing r with
  | done value =>
      cases h
      exact .of_grammars_eq rfl
  | require name next ih =>
      obtain ⟨⟨answer, between⟩, hrequire, hnext⟩ := Option.bind_eq_some_iff.mp h
      rw [Session.historyWith, hrequire]
      exact (leadsTo_of_require hload hrequire).append (ih answer hnext)
  | register grammar next ih => exact (LeadsTo.register r grammar).append (ih h)
  | addSynonym synonym target next ih =>
      have hsame : r.LeadsTo [] (r.addSynonym synonym target) := .of_grammars_eq rfl
      exact hsame.append (ih h)
  | inspect next ih => exact ih r.store h
  | emit event next ih =>
      have hsame : r.LeadsTo [] (r.emit event) := .of_grammars_eq rfl
      exact hsame.append (ih h)

end

/-- However deep the requests of a locator go, it does what it adds to the history. -/
theorem keeps_load (locator : Locator) (depth : Nat) :
    Keeps (locator.history depth) (locator.load depth) := by
  induction depth with
  | zero =>
      intro name r answer r' h
      cases h
  | succ depth ih =>
      intro name r answer r' h
      obtain ⟨⟨given, between⟩, hbuild, hsettle⟩ := Option.bind_eq_some_iff.mp h
      have hasked : r.LeadsTo [] (r.noteAsked name) := .of_grammars_eq rfl
      have hbuilt := leadsTo_of_runWith ih hbuild
      have hr' : r' = (Locator.settle name given between).2 :=
        congrArg Prod.snd (Option.some.inj hsettle).symm
      subst hr'
      rw [Locator.history, hbuild]
      exact hasked.append (hbuilt.append (.settle name given between))

theorem keeps_past (r : Registry) : Keeps r.past r.load := by
  unfold past load
  cases r.locator with
  | some locator => exact keeps_load locator locator.depth
  | none =>
      intro name r answer r' h
      cases h
      exact .of_grammars_eq rfl

theorem leadsTo_of_run {α : Type} {session : Session α} {r r' : Registry} {a : α}
    (h : r.run session = some (a, r')) : r.LeadsTo (r.history session) r' :=
  leadsTo_of_runWith (keeps_past r) h

/-- A registry that starts empty publishes under a name the last grammar that was registered
under it, or else the first that the locator gave for it, or else nothing. In what follows no
name is lost, and a name keeps its grammar unless one is registered under it. -/
theorem store_of_run {α : Type} {session : Session α} {start r : Registry} {a : α}
    (hempty : start.store = .empty) (hrun : start.run session = some (a, r)) :
    (∀ key, r.store.find? key = entry? (start.history session) key) ∧
      ∀ (β : Type) (later : Session β) (b : β) (r' : Registry), r.run later = some (b, r') →
        ∀ key grammar, r.store.find? key = some grammar →
          (∃ grammar', r'.store.find? key = some grammar') ∧
          ((∀ grammar', .registered grammar' ∈ r.history later → grammar'.name ≠ key) →
            r'.store.find? key = some grammar) := by
  constructor
  · intro key
    rw [leadsTo_of_run hrun key, hempty]
    rfl
  · intro β later b r' hlater key grammar hgrammar
    have hfind := leadsTo_of_run hlater key
    rw [hgrammar, Option.some_or] at hfind
    constructor
    · rw [hfind]
      cases lastRegistered? (r.history later) key with
      | none => exact ⟨grammar, rfl⟩
      | some other => exact ⟨other, rfl⟩
    · intro hnone
      rw [hfind, lastRegistered?_eq_none hnone, Option.none_or]

/-- A locator that registers a grammar of the name it was asked for, and asks for another one,
before it answers. -/
def hasty : Locator where
  grammar name :=
    if name = "outer" then
      .register (.empty "outer") (.require "inner" fun _ => .done (some (.ok (.empty "late"))))
    else if name = "inner" then .done (some (.ok (.empty "own")))
    else .done none
  languages := ["outer", "inner"]
  depth := 2

theorem store_of_run_hasty :
    ∃ r, (withLocator hasty).run (.require "outer" fun _ => .done ()) = some ((), r) ∧
      (r.store.find? "outer").map (·.name) = some "outer" ∧
      (r.store.find? "inner").map (·.name) = some "own" ∧ r.store.find? "own" = none := by
  obtain ⟨r, hrun⟩ : ∃ r, (withLocator hasty).run (.require "outer" fun _ => .done ()) =
      some ((), r) := ⟨_, rfl⟩
  have hstore := (store_of_run rfl hrun).1
  refine ⟨r, hrun, ?_⟩
  rw [hstore "outer", hstore "inner", hstore "own"]
  exact ⟨rfl, rfl, rfl⟩

end Registry

end Highlight
