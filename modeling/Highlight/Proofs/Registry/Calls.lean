import Highlight.Proofs.Languages.Reading

/-!
Calls that load grammars, in any order. What is asked for in between makes no difference to later
answers, as long as locators only read (`Registry.require_after_calls`).
-/

namespace Highlight

namespace Registry

/-- A use of a registry that changes nothing itself. -/
inductive Call where
  | require (name : String)
  | get (name : String)
  | tokenize (name text : String)
  | loadAll

/-- The names that are asked for in a call. -/
def Call.names (r : Registry) : Call → List String
  | .require name => [name]
  | .get name => [name]
  | .tokenize name _ => [name]
  | .loadAll => (r.locator.map (·.languages)).getD []

def perform (r : Registry) : Call → Option Registry
  | .require name => (r.run (.require name .done)).map (·.2)
  | .get name => (r.run (.get name)).map (·.2)
  | .tokenize name text => (r.run (.tokenizeBy name text)).map (·.2)
  | .loadAll => (r.run r.loadAll).map (·.2)

def performAll (r : Registry) : List Call → Option Registry
  | [] => some r
  | call :: rest => do (← r.perform call).performAll rest

end Registry

namespace Session

variable {P : String → Prop}

theorem reads_get {name : String} (h : P name) : (get name).Reads P := by
  refine ⟨h, ?_⟩
  rintro (e | g)
  · cases e with
    | unknownGrammar name => trivial
    | _ => trivial
  · trivial

theorem reads_tokenize (g : Grammar) (text : String) : (tokenize g text).Reads P := by
  unfold tokenize
  split
  next => trivial
  next => trivial

theorem reads_tokenizeBy {name : String} (h : P name) (text : String) :
    (tokenizeBy name text).Reads P := by
  refine ⟨h, ?_⟩
  rintro (e | g)
  · trivial
  · exact (reads_tokenize g text).andThen fun _ => trivial

theorem reads_requireAll {names : List String} (h : ∀ name ∈ names, P name) :
    (requireAll names).Reads P := by
  induction names with
  | nil => trivial
  | cons name rest ih =>
      obtain ⟨hname, hrest⟩ := List.forall_mem_cons.mp h
      refine ⟨hname, ?_⟩
      rintro (e | g)
      · trivial
      · exact ih hrest

end Session

namespace Registry

variable {r r' : Registry} {rank : String → Nat}

theorem Grown.exists_perform (h : r.Grown rank r') (hlayered : r.Layered rank) {call : Call}
    (hnames : ∀ name ∈ call.names r, r.InDepth rank (r.canonical name)) :
    ∃ r'', r'.perform call = some r'' ∧ r.Grown rank r'' := by
  have hrun {α : Type} {session : Session α}
      (hreads : session.Reads fun name => r.InDepth rank (r.canonical name)) :
      ∃ r'', (r'.run session).map (·.2) = some r'' ∧ r.Grown rank r'' := by
    obtain ⟨a, r'', hrun, -, hgrown⟩ := h.exists_run hlayered hreads
    exact ⟨r'', by rw [hrun]; rfl, hgrown⟩
  cases call with
  | require name => exact hrun ⟨hnames name List.mem_cons_self, fun _ => trivial⟩
  | get name => exact hrun (Session.reads_get (hnames name List.mem_cons_self))
  | tokenize name text =>
      refine hrun (Session.reads_tokenizeBy ?_ text)
      exact hnames name List.mem_cons_self
  | loadAll =>
      refine hrun (Session.reads_requireAll ?_)
      rwa [h.locator_eq]

theorem Grown.exists_performAll (h : r.Grown rank r') (hlayered : r.Layered rank)
    {calls : List Call}
    (hnames : ∀ call ∈ calls, ∀ name ∈ call.names r, r.InDepth rank (r.canonical name)) :
    ∃ r'', r'.performAll calls = some r'' ∧ r.Grown rank r'' := by
  induction calls generalizing r' with
  | nil => exact ⟨r', rfl, h⟩
  | cons call rest ih =>
      obtain ⟨hcall, hrest⟩ := List.forall_mem_cons.mp hnames
      obtain ⟨between, hperform, hbetween⟩ := h.exists_perform hlayered hcall
      obtain ⟨r'', hperformAll, hgrown⟩ := ih hbetween hrest
      exact ⟨r'', by rw [performAll, hperform]; exact hperformAll, hgrown⟩

/-- Calls that load grammars do not change what is answered later, and all that they publish they
publish alike. -/
theorem require_after_calls (h : r.Layered rank) (first second : List Call) (name : String)
    (hcalls : ∀ call ∈ first ++ second, ∀ asked ∈ call.names r,
      r.InDepth rank (r.canonical asked))
    (hname : r.InDepth rank (r.canonical name)) :
    ∃ r₁ r₂ r₁' r₂' answer, r.performAll first = some r₁ ∧ r.performAll second = some r₂ ∧
      r₁.run (.require name .done) = some (answer, r₁') ∧
      r₂.run (.require name .done) = some (answer, r₂') ∧
      ∀ key g₁ g₂, r₁.store.find? key = some g₁ → r₂.store.find? key = some g₂ → g₁ = g₂ := by
  have hstart := Grown.refl r rank
  obtain ⟨r₁, hfirst, h₁⟩ := hstart.exists_performAll h fun call hmem =>
    hcalls call (List.mem_append_left second hmem)
  obtain ⟨r₂, hsecond, h₂⟩ := hstart.exists_performAll h fun call hmem =>
    hcalls call (List.mem_append_right first hmem)
  have hreads : (Session.require name .done).Reads fun name =>
      r.InDepth rank (r.canonical name) := ⟨hname, fun _ => trivial⟩
  obtain ⟨answer, r₁', hrun₁, hvalue₁, -⟩ := h₁.exists_run h hreads
  obtain ⟨answer₂, r₂', hrun₂, hvalue₂, -⟩ := h₂.exists_run h hreads
  rw [hvalue₁] at hvalue₂
  cases hvalue₂
  exact ⟨r₁, r₂, r₁', r₂', answer, hfirst, hsecond, hrun₁, hrun₂,
    fun key g₁ g₂ => h₁.eq_of_find? h₂⟩

/-- The base that is published along with a language is the one that is loaded by itself. -/
theorem require_after_calls_clike :
    ∃ r₁ r₂ r₁' r₂' g, Languages.registry.performAll [] = some r₁ ∧
      Languages.registry.performAll [.require "dart", .tokenize "jsonp" "[1]", .loadAll] =
        some r₂ ∧
      r₁.run (.require "clike" .done) = some (.ok g, r₁') ∧
      r₂.run (.require "clike" .done) = some (.ok g, r₂') ∧ g.name = "clike" := by
  have hcheck : ((Languages.registry.run (.require "clike" .done)).bind fun found =>
      found.1.toOption.map (·.name)) = some "clike" := by decide +kernel
  obtain ⟨r₁, r₂, r₁', r₂', answer, hfirst, hsecond, hrun₁, hrun₂, -⟩ :=
    require_after_calls Languages.layered_registry []
      [.require "dart", .tokenize "jsonp" "[1]", .loadAll] "clike"
      (fun _ _ asked _ => Languages.inDepth _) (Languages.inDepth _)
  cases hfirst
  rw [hrun₁, Option.bind_some] at hcheck
  cases answer with
  | error e => simp [Except.toOption] at hcheck
  | ok g =>
      refine ⟨_, r₂, r₁', r₂', g, rfl, hsecond, hrun₁, hrun₂, ?_⟩
      simpa [Except.toOption] using hcheck

end Registry

end Highlight
