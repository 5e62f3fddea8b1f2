import Highlight.Proofs.Registry.AtHand
import Highlight.Proofs.Registry.History

/-!
How a name comes to a grammar. It is looked up as it is spelt, then under the name that it stands
for, and only then is the locator asked. So it can be told from what is published whether a request
will be answered without the locator (`Registry.contains_predicts`).
-/

namespace Highlight

/-- A request for which the locator is asked: once by the request itself, and besides only by what
the locator requests while it builds. -/
def Turn.request (name target : String) (talk : List Turn)
    (given : Option (Except GrammarError Grammar)) (answer : Except GrammarError Grammar) :
    List Turn :=
  .called name :: (Turn.exchange target talk given ++
    [.returned name (Turn.exchange target talk given) answer])

theorem Turn.filterMap_asked?_request (name target : String) (talk : List Turn)
    (given : Option (Except GrammarError Grammar)) (answer : Except GrammarError Grammar) :
    (Turn.request name target talk given answer).filterMap Turn.asked? =
      target :: talk.filterMap Turn.asked? := by
  simp [Turn.request, Turn.filterMap_asked?_exchange, List.filterMap_cons, Turn.asked?]

namespace Locator

/-- Only an answer of the locator with a grammar settles a request with one: the one that is
published by then under the name, or else the one that was built. -/
theorem published_of_settle_eq_ok {name : String} {given : Option (Except GrammarError Grammar)}
    {between : Registry} {g : Grammar} (h : (settle name given between).1 = .ok g) :
    (settle name given between).2.store.find? name = some g ∧
      ∃ built, given = some (.ok built) ∧ g = (between.store.find? name).getD built := by
  rcases given with _ | e | built
  · cases h
  · cases h
  · have hfind : (settle name (some (.ok built)) between).2.store.find? name =
        some ((between.store.find? name).getD built) := by
      simp [settle, Registry.publishLocated, Registry.emit, Store.find?, Table.find?_insertNew]
    have hg : ((settle name (some (.ok built)) between).2.store.find? name).getD built = g :=
      Except.ok.inj h
    rw [hfind] at hg
    exact ⟨hfind.trans (congrArg some hg), built, rfl, hg.symm⟩

end Locator

namespace Registry

variable {r r' : Registry} {name : String} {locator : Locator}

theorem canonical_eq_getD (r : Registry) (name : String) : r.canonical name =
    ((r.store.synonyms.find? name).or (r.locator.bind (·.synonymOf name))).getD name := by
  unfold canonical
  cases r.store.synonyms.find? name <;> rfl

theorem published?_eq_or (r : Registry) (name : String) :
    r.published? name = (r.store.find? name).or (r.store.find? (r.canonical name)) := by
  unfold published?
  cases r.store.find? name <;> rfl

theorem contains_eq_isSome (r : Registry) (name : String) :
    r.contains name = (r.published? name).isSome := by
  rw [published?_eq_or, Option.isSome_or]
  rfl

theorem published?_eq_none_of_contains (h : r.contains name = false) :
    r.published? name = none := by
  rwa [contains_eq_isSome, Option.isSome_eq_false_iff, Option.isNone_iff_eq_none] at h

theorem exists_published?_of_contains (h : r.contains name = true) :
    ∃ g, r.published? name = some g := by
  rw [contains_eq_isSome] at h
  exact Option.isSome_iff_exists.mp h

theorem run_require_of_published? {g : Grammar} (h : r.published? name = some g) :
    r.run (.require name .done) = some (.ok g, r) := by
  rw [run_require, require, h]

theorem run_require_of_locator_eq_none (h : r.published? name = none)
    (hlocator : r.locator = none) :
    r.run (.require name .done) = some (.error (.unknownGrammar (r.canonical name)), r) := by
  rw [run_require, require, h, hlocator]
  rfl

theorem runs_of_run {α : Type} {session : Session α} {a : α} (hlocator : r.locator = some locator)
    (h : r.run session = some (a, r')) : ∃ turns, session.Runs locator r turns a r' := by
  rw [run, load, hlocator] at h
  exact Session.runs_of_runWith h

/-- A request for what is not published is settled by what the locator answers for the name that is
stood for. It is asked once for that, besides its own requests. -/
theorem exists_of_runs_require {turns : List Turn} {answer : Except GrammarError Grammar}
    (hmissing : r.published? name = none) (hlocator : r.locator = some locator)
    (h : (Session.require name .done).Runs locator r turns answer r') :
    ∃ talk given between, (locator.grammar (r.canonical name)).Runs locator
        (r.noteAsked (r.canonical name)) talk given between ∧
      turns = Turn.request name (r.canonical name) talk given answer ∧
      r'.askedNames = r.askedNames ++ r.canonical name :: talk.filterMap Turn.asked? ∧
      ∀ g, answer = .ok g → r'.store.find? (r.canonical name) = some g ∧
        ∃ built, given = some (.ok built) ∧
          g = (between.store.find? (r.canonical name)).getD built := by
  have hasked := h.asked_eq
  cases h with
  | published found => simp [found] at hmissing
  | unlocated _ unlocated => simp [hlocator] at unlocated
  | @located _ _ _ _ between _ talk _ given _ _ _ build rest =>
      cases rest
      refine ⟨talk, given, between, build, rfl, ?_, fun g => Locator.published_of_settle_eq_ok⟩
      have hturns := Turn.filterMap_asked?_request name (r.canonical name) talk given
        (Locator.settle (r.canonical name) given between).1
      rw [Turn.request] at hturns
      rw [askedNames, hasked, hturns]
      simp [askedNames]

/-- A name is published, itself or as what it stands for, exactly if a request for it is answered
with a grammar and the locator is not asked. -/
theorem contains_iff_exists_run : r.contains name = true ↔
    ∃ g r', r.run (.require name .done) = some (.ok g, r') ∧ r'.asked = r.asked := by
  constructor
  · intro hcontains
    obtain ⟨g, hg⟩ := exists_published?_of_contains hcontains
    exact ⟨g, r, run_require_of_published? hg, rfl⟩
  · rintro ⟨g, r', hrun, hasked⟩
    rw [contains_eq_isSome]
    cases hpublished : r.published? name with
    | some found => rfl
    | none =>
        cases hlocator : r.locator with
        | none =>
            rw [run_require_of_locator_eq_none hpublished hlocator] at hrun
            cases hrun
        | some locator =>
            obtain ⟨turns, hruns⟩ := runs_of_run hlocator hrun
            -- If the locator had been asked, the record would be longer than it was.
            obtain ⟨talk, -, -, -, -, hnames, -⟩ :=
              exists_of_runs_require hpublished hlocator hruns
            rw [askedNames, askedNames, hasked, List.self_eq_append_right] at hnames
            cases hnames

/-- What is published answers a request at once, and only then is the locator not asked. Otherwise
it is asked once, for the name that is stood for, besides its own requests. If that comes to a
grammar, this is what is published under the name in the end, by whomever. -/
theorem contains_predicts (r : Registry) (name target : String)
    (htarget : target =
      ((r.store.synonyms.find? name).or (r.locator.bind (·.synonymOf name))).getD name) :
    (r.contains name = true ↔
      ∃ g r', r.run (.require name .done) = some (.ok g, r') ∧ r'.asked = r.asked) ∧
    (r.contains name = true → ∃ g, (r.store.find? name).or (r.store.find? target) = some g ∧
      r.run (.require name .done) = some (.ok g, r)) ∧
    (r.contains name = false → r.locator = none →
      r.run (.require name .done) = some (.error (.unknownGrammar target), r)) ∧
    ∀ locator, r.contains name = false → r.locator = some locator →
      (∀ answer r', r.run (.require name .done) = some (answer, r') →
        ∃ turns, (Session.require name .done).Runs locator r turns answer r') ∧
      (∀ talk given between,
        (locator.grammar target).Runs locator (r.noteAsked target) talk given between →
        ∃ answer r', (Session.require name .done).Runs locator r
          (Turn.request name target talk given answer) answer r') ∧
      ∀ turns answer r', (Session.require name .done).Runs locator r turns answer r' →
        ∃ talk given between,
          (locator.grammar target).Runs locator (r.noteAsked target) talk given between ∧
          turns = Turn.request name target talk given answer ∧
          r'.askedNames = r.askedNames ++ target :: talk.filterMap Turn.asked? ∧
          ∀ g, answer = .ok g → r'.store.find? target = some g ∧
            ∃ built, given = some (.ok built) ∧ g = (between.store.find? target).getD built := by
  rw [← canonical_eq_getD] at htarget
  subst htarget
  refine ⟨contains_iff_exists_run, ?_, ?_, ?_⟩
  · intro hcontains
    rw [contains_eq_isSome] at hcontains
    obtain ⟨g, hg⟩ := Option.isSome_iff_exists.mp hcontains
    exact ⟨g, published?_eq_or r name ▸ hg, run_require_of_published? hg⟩
  · intro hmissing hlocator
    exact run_require_of_locator_eq_none (published?_eq_none_of_contains hmissing) hlocator
  · intro locator hmissing hlocator
    have hnone := published?_eq_none_of_contains hmissing
    refine ⟨fun answer r' => runs_of_run hlocator, ?_,
      fun turns answer r' => exists_of_runs_require hnone hlocator⟩
    intro talk given between hbuild
    have hlocated : r.locator.isSome = true := by rw [hlocator]; rfl
    exact ⟨_, _, .located hnone hlocated hbuild (.done _ _)⟩

/-- The grammar that the locator registers while it builds another one of the same name answers the
request, also by a synonym. -/
theorem contains_predicts_hasty :
    let r := (withLocator hasty).addSynonym "o" "outer"
    ∃ answer r', r.contains "o" = false ∧ r.run (.require "o" .done) = some (answer, r') ∧
      r'.askedNames = ["outer", "inner"] ∧ answer.toOption.map (·.name) = some "outer" ∧
      ∃ talk given, (Session.require "o" .done).Runs hasty r
          (Turn.request "o" "outer" talk given answer) answer r' ∧
        ∀ g, answer = .ok g → r'.store.find? "outer" = some g := by
  intro r
  obtain ⟨-, -, -, hasks⟩ := contains_predicts r "o" "outer" rfl
  obtain ⟨hruns, -, hturns⟩ := hasks hasty rfl rfl
  refine ⟨_, _, rfl, rfl, by decide, by decide, ?_⟩
  obtain ⟨turns, hturn⟩ := hruns _ _ rfl
  obtain ⟨talk, given, between, -, rfl, -, hpublished⟩ := hturns _ _ _ hturn
  exact ⟨talk, given, hturn, fun g hg => (hpublished g hg).1⟩

end Registry

end Highlight
