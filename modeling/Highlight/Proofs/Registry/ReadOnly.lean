import Highlight.Proofs.Registry.Calls
import Highlight.Proofs.Registry.Once
import Highlight.Proofs.Registry.Reporting
import Highlight.Proofs.Registry.Requests
import Highlight.Proofs.Registry.Resolution
import Highlight.Proofs.Scan.Lossless

/-!
Loading everything first. With a locator that adds no synonyms, a name that has once been answered
with a grammar stays at hand. So after all that the locator knows has been loaded, calls only read
(`Registry.readOnly_of_loadAll`).
-/

namespace Highlight

open Session

namespace Registry

def languages (r : Registry) : List String :=
  (r.locator.map (·.languages)).getD []

/-- Another registry in which all is published that was, and all names stand for what they did. -/
structure Extends (r r' : Registry) : Prop where
  grows : r.Grows r'
  locator_eq : r'.locator = r.locator
  canonical_eq : ∀ name, r'.canonical name = r.canonical name

namespace Extends

variable {r r' r'' : Registry}

theorem refl (r : Registry) : r.Extends r :=
  ⟨.refl r, rfl, fun _ => rfl⟩

theorem trans (h : r.Extends r') (h' : r'.Extends r'') : r.Extends r'' :=
  ⟨h.grows.trans h'.grows, h'.locator_eq.trans h.locator_eq,
    fun name => (h'.canonical_eq name).trans (h.canonical_eq name)⟩

theorem load_eq (h : r.Extends r') : r'.load = r.load := by
  rw [load, load, h.locator_eq]

theorem contains (h : r.Extends r') {name : String} (hname : r.contains name = true) :
    r'.contains name = true := by
  rw [contains_eq_isSome] at hname ⊢
  exact h.grows.published? (h.canonical_eq name) hname

end Extends

end Registry

/-- A locator that adds no synonyms, whatever it is asked for. -/
def Locator.KeepsSynonyms (locator : Locator) : Prop :=
  ∀ name r talk given r', (locator.grammar name).Runs locator r talk given r' →
    ∀ synonym, .renamed synonym ∉ talk

theorem Locator.locator_settle (name : String) (given : Option (Except GrammarError Grammar))
    (r : Registry) : (Locator.settle name given r).2.locator = r.locator := by
  rcases given with _ | e | grammar
  · rfl
  · rfl
  · rfl

namespace Session

open Registry

variable {α : Type} {locator : Locator} {session : Session α} {r r' : Registry} {a : α}
  {turns : List Turn}

theorem Runs.locator_eq (h : session.Runs locator r turns a r') : r'.locator = r.locator := by
  induction h with
  | done => rfl
  | published _ _ ih | unlocated _ _ _ ih | register _ ih | addSynonym _ ih | inspect _ ih
  | emit _ ih => exact ih
  | located _ _ _ _ ihbuild ih => exact ih.trans ((Locator.locator_settle _ _ _).trans ihbuild)

theorem Runs.extends (h : session.Runs locator r turns a r')
    (hkeeps : ∀ synonym, .renamed synonym ∉ turns) : r.Extends r' :=
  ⟨h.holds.grows, h.locator_eq, fun name => h.holds.canonical_eq name (hkeeps name)⟩

/-- Sessions in which synonyms are not added have no turns in which they are. -/
theorem Runs.renamed_not_mem (hlocator : locator.Makes Request.KeepsSynonyms)
    (h : session.Runs locator r turns a r') (hsession : session.Makes Request.KeepsSynonyms)
    (synonym : String) : .renamed synonym ∉ turns := by
  induction h with
  | done => simp
  | published _ _ ih | unlocated _ _ _ ih => simpa using ih (hsession.2 _)
  | located _ _ _ _ ihbuild ih =>
      simpa [Turn.exchange] using ⟨ihbuild (hlocator _), ih (hsession.2 _)⟩
  | register _ ih => exact ih hsession.2
  | addSynonym => exact absurd rfl (hsession.1 _ _)
  | inspect _ ih => exact ih (hsession.2 _)
  | emit _ ih => exact ih hsession.2

theorem extends_of_require (hlocator : locator.KeepsSynonyms) (hr : r.locator = some locator)
    {name : String} {answer : Except GrammarError Grammar}
    (h : r.run (.require name .done) = some (answer, r')) : r.Extends r' := by
  obtain ⟨turns, hruns⟩ := runs_of_run hr h
  cases hpublished : r.published? name with
  | some g =>
      rw [run_require_of_published? hpublished] at h
      cases h
      exact .refl r
  | none =>
      obtain ⟨talk, given, between, hbuild, rfl, -⟩ := exists_of_runs_require hpublished hr hruns
      refine hruns.extends fun synonym => ?_
      simpa [Turn.request, Turn.exchange] using hlocator _ _ _ _ _ hbuild synonym

end Session

theorem Locator.keepsSynonyms_of_working {locator : Locator}
    (h : locator.Makes Session.Request.Working) : locator.KeepsSynonyms := by
  have hmakes : locator.Makes Session.Request.KeepsSynonyms := fun name =>
    (h name).mono fun _ hworking => hworking.keepsSynonyms
  intro name r talk given r' hruns
  exact hruns.renamed_not_mem hmakes (hmakes name)

namespace Session

open Registry

variable {locator : Locator} {r r' : Registry}

/-- What is answered with a grammar is published then. -/
theorem contains_of_require (hlocator : locator.KeepsSynonyms) (hr : r.locator = some locator)
    {name : String} {g : Grammar}
    (h : r.run (.require name .done) = some (.ok g, r')) : r'.contains name = true := by
  have hextends := extends_of_require hlocator hr h
  obtain ⟨turns, hruns⟩ := runs_of_run hr h
  cases hpublished : r.published? name with
  | some found =>
      refine hextends.contains ?_
      rw [contains_eq_isSome, hpublished]
      rfl
  | none =>
      obtain ⟨_, _, _, -, -, -, hfind⟩ := exists_of_runs_require hpublished hr hruns
      rw [contains_eq_isSome, isSome_published?_iff, hextends.canonical_eq, (hfind g rfl).1]
      exact .inr rfl

/-- Requests that all succeed leave all that they name published. -/
theorem contains_of_requireAll (hlocator : locator.KeepsSynonyms) (hr : r.locator = some locator)
    {names : List String}
    (h : r.run (requireAll names) = some (.ok (), r')) :
    r.Extends r' ∧ ∀ name ∈ names, r'.contains name = true := by
  induction names generalizing r with
  | nil =>
      cases h
      exact ⟨.refl _, by simp⟩
  | cons name rest ih =>
      obtain ⟨⟨answer, between⟩, hrequire, hnext⟩ := Option.bind_eq_some_iff.mp h
      rcases answer with e | g
      · cases hnext
      · rw [← run_require] at hrequire
        have hextends := extends_of_require hlocator hr hrequire
        have hname := contains_of_require hlocator hr hrequire
        have hrun : between.run (requireAll rest) = some (.ok (), r') := by
          rw [run, hextends.load_eq]
          exact hnext
        -- What is published after the first request is so after the others.
        obtain ⟨hrest, hnames⟩ := ih (hextends.locator_eq.trans hr) hrun
        exact ⟨hextends.trans hrest, List.forall_mem_cons.mpr ⟨hrest.contains hname, hnames⟩⟩

/-- Requests that do not all succeed come to an end at the first that fails. -/
theorem exists_of_requireAll_eq_error {load : Load} {names : List String} {e : GrammarError}
    (h : (requireAll names).runWith load r = some (.error e, r')) :
    ∃ before failing after between, names = before ++ failing :: after ∧
      (requireAll before).runWith load r = some (.ok (), between) ∧
      between.require load failing = some (.error e, r') := by
  induction names generalizing r with
  | nil => cases h
  | cons name rest ih =>
      obtain ⟨⟨answer, next⟩, hrequire, hnext⟩ := Option.bind_eq_some_iff.mp h
      rcases answer with failure | g
      · cases hnext
        exact ⟨[], name, rest, r, rfl, rfl, hrequire⟩
      · obtain ⟨before, failing, after, between, rfl, hbefore, hfailing⟩ := ih hnext
        refine ⟨name :: before, failing, after, between, rfl, ?_, hfailing⟩
        rw [requireAll, runWith, hrequire]
        exact hbefore

end Session

namespace Registry

variable {r r' r'' : Registry} {name : String}

/-- A call that comes to what it asks for. A text is tokenized as far as its offsets have 32
bits. -/
def Succeeds (r r' : Registry) : Call → Prop
  | .require name => ∃ g, r.run (.require name .done) = some (.ok g, r')
  | .get name => ∃ g, r.run (.get name) = some (some g, r')
  | .tokenize name text => ∃ g : Grammar,
      r.run (.tokenizeBy name text) = some (.ok (g.tokenize text), r') ∧
        (Text.width text.toList < UInt32.size → ∃ nodes, g.tokenize text = .ok nodes)
  | .loadAll => r.run r.loadAll = some (.ok (), r')

def SucceedAll (r : Registry) : List Call → Registry → Prop
  | [], r' => r' = r
  | call :: rest, r' => ∃ between, r.Succeeds between call ∧ between.SucceedAll rest r'

/-- Another registry that differs by what it reports at most. -/
structure Alike (r r' : Registry) : Prop where
  store_eq : r'.store = r.store
  locator_eq : r'.locator = r.locator
  asked_eq : r'.asked = r.asked

theorem Alike.refl (r : Registry) : r.Alike r :=
  ⟨rfl, rfl, rfl⟩

theorem Alike.trans (h : r.Alike r') (h' : r'.Alike r'') : r.Alike r'' :=
  ⟨h'.store_eq.trans h.store_eq, h'.locator_eq.trans h.locator_eq, h'.asked_eq.trans h.asked_eq⟩

theorem Alike.contains_eq (h : r.Alike r') (name : String) :
    r'.contains name = r.contains name := by
  rw [contains, contains, canonical, canonical, h.store_eq, h.locator_eq]

theorem Alike.names_eq (h : r.Alike r') (call : Call) : call.names r' = call.names r := by
  cases call <;> simp only [Call.names, h.locator_eq]

theorem run_requireAll_of_contains {names : List String}
    (h : ∀ name ∈ names, r.contains name = true) : r.run (requireAll names) = some (.ok (), r) := by
  induction names with
  | nil => rfl
  | cons name rest ih =>
      obtain ⟨hname, hrest⟩ := List.forall_mem_cons.mp h
      obtain ⟨g, hg⟩ := exists_published?_of_contains hname
      have hrequire := run_require_of_published? hg
      rw [run_require] at hrequire
      rw [run, requireAll, runWith, hrequire]
      exact ih hrest

theorem exists_run_tokenizeBy {g : Grammar} (h : r.require r.load name = some (.ok g, r))
    (text : String) :
    ∃ r', r.run (.tokenizeBy name text) = some (.ok (g.tokenize text), r') ∧ r.Alike r' := by
  rw [run, tokenizeBy, runWith, h]
  simp only [Option.bind_eq_bind, Option.bind_some, Session.tokenize]
  cases g.tokenize text with
  | error fault => exact ⟨r, rfl, .refl r⟩
  | ok nodes =>
      exact ⟨r.emit (.tokenized g.name (Text.width text.toList) nodes.length), rfl, rfl, rfl, rfl⟩

/-- A call for names that are published succeeds and changes nothing. -/
theorem exists_succeeds {call : Call} (h : ∀ name ∈ call.names r, r.contains name = true) :
    ∃ r', r.Succeeds r' call ∧ r.Alike r' := by
  have hrequire {name : String} (hname : name ∈ call.names r) :
      ∃ g, r.require r.load name = some (.ok g, r) := by
    obtain ⟨g, hg⟩ := exists_published?_of_contains (h name hname)
    exact ⟨g, run_require r name ▸ run_require_of_published? hg⟩
  cases call with
  | require name =>
      obtain ⟨g, hg⟩ := hrequire List.mem_cons_self
      exact ⟨r, ⟨g, run_require r name ▸ hg⟩, .refl r⟩
  | get name =>
      obtain ⟨g, hg⟩ := hrequire List.mem_cons_self
      exact ⟨r, ⟨g, run_get_of_ok hg⟩, .refl r⟩
  | tokenize name text =>
      obtain ⟨g, hg⟩ := hrequire List.mem_cons_self
      obtain ⟨r', hrun, halike⟩ := exists_run_tokenizeBy hg text
      refine ⟨r', ⟨g, hrun, fun hwidth => ?_⟩, halike⟩
      obtain ⟨nodes, hnodes, -⟩ := g.exists_tokenize hwidth
      exact ⟨nodes, hnodes⟩
  | loadAll => exact ⟨r, run_requireAll_of_contains h, .refl r⟩

theorem exists_succeedAll {calls : List Call}
    (h : ∀ call ∈ calls, ∀ name ∈ call.names r, r.contains name = true) :
    ∃ r', r.SucceedAll calls r' ∧ r.Alike r' := by
  induction calls generalizing r with
  | nil => exact ⟨r, rfl, .refl r⟩
  | cons call rest ih =>
      obtain ⟨hcall, hrest⟩ := List.forall_mem_cons.mp h
      obtain ⟨between, hsucceeds, halike⟩ := exists_succeeds hcall
      have hthen : ∀ call ∈ rest, ∀ name ∈ call.names between, between.contains name = true := by
        intro call hmem name hname
        rw [halike.contains_eq]
        exact hrest call hmem name (halike.names_eq call ▸ hname)
      obtain ⟨r', hsucceedAll, halike'⟩ := ih hthen
      exact ⟨r', ⟨between, hsucceeds, hsucceedAll⟩, halike.trans halike'⟩

section

variable (hlocator : ∀ locator, r.locator = some locator → locator.KeepsSynonyms)
include hlocator

theorem contains_of_loadAll (h : r.run r.loadAll = some (.ok (), r')) :
    ∀ name ∈ r'.languages, r'.contains name = true := by
  cases hlocated : r.locator with
  | none =>
      have hnil : r.loadAll = requireAll [] := by rw [loadAll, hlocated]; rfl
      rw [hnil] at h
      cases h
      simp [languages, hlocated]
  | some locator =>
      obtain ⟨hextends, hnames⟩ := contains_of_requireAll (hlocator locator hlocated) hlocated h
      rwa [languages, hextends.locator_eq]

theorem exists_of_loadAll_eq_error {e : GrammarError} (h : r.run r.loadAll = some (.error e, r')) :
    ∃ before failing after between, r.languages = before ++ failing :: after ∧
      r.run (requireAll before) = some (.ok (), between) ∧
      between.run (.require failing .done) = some (.error e, r') ∧
      ∀ name ∈ before, r'.contains name = true := by
  obtain ⟨before, failing, after, between, hsplit, hbefore, hfailing⟩ :=
    exists_of_requireAll_eq_error h
  cases hlocated : r.locator with
  | none => simp [hlocated] at hsplit
  | some locator =>
      have hkeeps := hlocator locator hlocated
      obtain ⟨hextends, hnames⟩ := contains_of_requireAll hkeeps hlocated hbefore
      have hfails : between.run (.require failing .done) = some (.error e, r') := by
        rw [run_require, hextends.load_eq]
        exact hfailing
      have hrest := extends_of_require hkeeps (hextends.locator_eq.trans hlocated) hfails
      exact ⟨before, failing, after, between, hsplit, hbefore, hfails,
        fun name hmem => hrest.contains (hnames name hmem)⟩

end

/-- With a locator that adds no synonyms, once everything that it knows has been loaded, all calls
for its languages and for what stands for a published name succeed, the locator is not asked, and
nothing more is published. If loading fails, it does so as the request for a language fails, and
all languages before that are at hand. -/
theorem readOnly_of_loadAll (r : Registry)
    (hlocator : ∀ locator, r.locator = some locator → locator.KeepsSynonyms) :
    (∀ r', r.run r.loadAll = some (.ok (), r') → ∀ calls : List Call,
      (∀ call ∈ calls, ∀ name ∈ call.names r',
        name ∈ r'.languages ∨ r'.store.contains (r'.canonical name) = true) →
      ∃ r'', r'.SucceedAll calls r'' ∧ r''.store = r'.store ∧ r''.asked = r'.asked) ∧
    ∀ e r', r.run r.loadAll = some (.error e, r') →
      ∃ before failing after between, r.languages = before ++ failing :: after ∧
        r.run (requireAll before) = some (.ok (), between) ∧
        between.run (.require failing .done) = some (.error e, r') ∧
        ∀ name ∈ before, ∃ g, r'.run (.require name .done) = some (.ok g, r') := by
  constructor
  · intro r' hrun calls hcalls
    have hcontains : ∀ call ∈ calls, ∀ name ∈ call.names r', r'.contains name = true := by
      intro call hmem name hname
      rcases hcalls call hmem name hname with hlanguage | hpublished
      · exact contains_of_loadAll hlocator hrun name hlanguage
      · rw [contains, hpublished, Bool.or_true]
    obtain ⟨r'', hsucceed, halike⟩ := exists_succeedAll hcontains
    exact ⟨r'', hsucceed, halike.store_eq, halike.asked_eq⟩
  · intro e r' hrun
    obtain ⟨before, failing, after, between, hsplit, hbefore, hfailing, hnames⟩ :=
      exists_of_loadAll_eq_error hlocator hrun
    refine ⟨before, failing, after, between, hsplit, hbefore, hfailing, ?_⟩
    intro name hmem
    obtain ⟨g, hg⟩ := exists_published?_of_contains (hnames name hmem)
    exact ⟨g, run_require_of_published? hg⟩

theorem working_layered : layered.Makes Request.Working := by
  intro name
  simp only [layered]
  split
  next =>
    have hextend := (Build.working_extend "b" "derived" []).run
    exact ⟨Request.working_register _, hextend.andThen fun _ => trivial⟩
  next => split <;> trivial

theorem readOnly_of_loadAll_layered :
    let r := (withLocator layered).addSynonym "d" "derived"
    ∃ r' r'', r.run r.loadAll = some (.ok (), r') ∧ r'.askedNames = ["derived", "base"] ∧
      r'.SucceedAll [.get "d", .require "b", .loadAll, .tokenize "derived" "x"] r'' ∧
      r''.askedNames = ["derived", "base"] ∧ r''.store = r'.store := by
  intro r
  have hkeeps : ∀ locator, r.locator = some locator → locator.KeepsSynonyms := by
    rintro _ ⟨⟩
    exact Locator.keepsSynonyms_of_working working_layered
  obtain ⟨r', hrun⟩ : ∃ r', r.run r.loadAll = some (.ok (), r') := ⟨_, rfl⟩
  have hasked : r'.askedNames = ["derived", "base"] := by
    cases hrun
    rfl
  obtain ⟨r'', hsucceed, hstore, hasked'⟩ := (readOnly_of_loadAll r hkeeps).1 r' hrun
    [.get "d", .require "b", .loadAll, .tokenize "derived" "x"] (by cases hrun; decide)
  exact ⟨r', r'', hrun, hasked, hsucceed, by rw [askedNames, hasked', ← askedNames, hasked], hstore⟩

end Registry

end Highlight
