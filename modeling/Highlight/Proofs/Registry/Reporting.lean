import Highlight.Proofs.Registry.History
import Highlight.Proofs.Registry.Synonyms

/-!
What is reported of a request. A request is answered from what is published, or in default of a
locator, or by what the locator makes of it (`Registry.Answers`). To get a grammar is to require it
and to report what failed, unless that was for an unknown name (`Registry.get_reports`).
-/

namespace Highlight

open Publication

namespace Registry

/-- The ways in which a request comes to its answer, with what it adds to the history. -/
inductive Answers (r : Registry) (name : String) :
    List Publication → Except GrammarError Grammar → Registry → Prop
  | published {grammar : Grammar} (found : r.published? name = some grammar) :
      Answers r name [] (.ok grammar) r
  | unlocated (missing : r.published? name = none) (locator_eq : r.locator = none) :
      Answers r name [] (.error (.unknownGrammar (r.canonical name))) r
  | located (missing : r.published? name = none) (front : List Publication)
      (given : Option (Except GrammarError Grammar)) (between : Registry) :
      Answers r name (front ++ [.answered (r.canonical name) given])
        (Locator.settle (r.canonical name) given between).1
        (Locator.settle (r.canonical name) given between).2

variable {r r' : Registry} {name : String} {answer : Except GrammarError Grammar}

theorem history_require (r : Registry) (name : String) :
    r.history (.require name .done) = r.requireHistory r.past name := by
  rw [history, Session.historyWith]
  cases r.require r.load name with
  | none => exact List.append_nil _
  | some outcome => exact List.append_nil _

theorem answers_of_require (h : r.require r.load name = some (answer, r')) :
    r.Answers name (r.history (.require name .done)) answer r' := by
  rw [history_require, requireHistory]
  unfold require at h
  cases hpublished : r.published? name with
  | some grammar =>
      rw [hpublished] at h
      cases h
      exact .published hpublished
  | none =>
      rw [hpublished] at h
      cases hlocator : r.locator with
      | none =>
          simp only [hlocator, Option.isSome_none, Bool.false_eq_true, if_false] at h ⊢
          cases h
          exact .unlocated hpublished hlocator
      | some locator =>
          simp only [hlocator, load, past, Option.isSome_some, if_true] at h ⊢
          cases hdepth : locator.depth with
          | zero =>
              rw [hdepth] at h
              cases h
          | succ depth =>
              rw [hdepth, Locator.load] at h
              obtain ⟨⟨given, between⟩, hbuild, hsettle⟩ := Option.bind_eq_some_iff.mp h
              rw [Locator.history, hbuild]
              have houtcome := Option.some.inj hsettle
              have hanswers := Answers.located hpublished
                ((locator.grammar (r.canonical name)).historyWith (locator.history depth)
                  (locator.load depth) (r.noteAsked (r.canonical name))) given between
              rwa [houtcome] at hanswers

/-- A failure other than an unknown name is one that the locator answered the request with. -/
theorem Answers.eq_error_iff {history : List Publication} {e : GrammarError}
    (h : r.Answers name history answer r') (hknown : ∀ missing, e ≠ .unknownGrammar missing) :
    answer = .error e ↔
      history.getLast? = some (.answered (r.canonical name) (some (.error e))) := by
  cases h with
  | published found => simp
  | unlocated missing locator_eq =>
      simp only [Except.error.injEq, List.getLast?_nil, reduceCtorEq, iff_false]
      exact fun heq => hknown _ heq.symm
  | located missing front given between =>
      rw [List.getLast?_append, List.getLast?_singleton, Option.some_or]
      rcases given with _ | failure | grammar
      · simp only [Locator.settle, Except.error.injEq, Option.some.injEq, answered.injEq,
          reduceCtorEq, and_false, iff_false]
        exact fun heq => hknown _ heq.symm
      · simp [Locator.settle]
      · simp [Locator.settle]

theorem run_get_of_ok {grammar : Grammar}
    (h : r.require r.load name = some (.ok grammar, r')) :
    r.run (.get name) = some (some grammar, r') := by
  rw [run, Session.get, Session.runWith, h]
  rfl

theorem run_get_of_unknown {missing : String}
    (h : r.require r.load name = some (.error (.unknownGrammar missing), r')) :
    r.run (.get name) = some (none, r') := by
  rw [run, Session.get, Session.runWith, h]
  rfl

theorem run_get_of_failure {e : GrammarError} (hknown : ∀ missing, e ≠ .unknownGrammar missing)
    (h : r.require r.load name = some (.error e, r')) :
    r.run (.get name) = some (none, r'.emit (.locatorFailed name e)) := by
  rw [run, Session.get, Session.runWith, h]
  cases e with
  | unknownGrammar missing => exact absurd rfl (hknown missing)
  | invalidPattern | emptyToken | duplicateToken | anchorNotFound | tokenNotFound => rfl

theorem emit_ne_self (r : Registry) (event : Event) : r.emit event ≠ r := by
  intro h
  have hlog : event :: r.log = r.log := congrArg Registry.log h
  exact List.cons_ne_self event r.log hlog

theorem emit_injective {event event' : Event} (h : r.emit event = r.emit event') :
    event = event' :=
  (List.cons.inj (congrArg Registry.log h)).1

theorem run_get_of_require_eq_none (h : r.require r.load name = none) :
    r.run (.get name) = none := by
  rw [run, Session.get, Session.runWith, h]
  rfl

/-- An answer other than a failure of another kind than an unknown name is not reported. -/
theorem Answers.silent {history : List Publication} (h : r.Answers name history answer r')
    (hunknown : ∀ e, answer = .error e → ∃ missing, e = .unknownGrammar missing)
    (e : GrammarError) :
    r' = r'.emit (.locatorFailed name e) ↔
      history.getLast? = some (.answered (r.canonical name) (some (.error e))) ∧
        ∀ missing, e ≠ .unknownGrammar missing := by
  constructor
  · intro heq
    exact absurd heq.symm (emit_ne_self r' _)
  · rintro ⟨hlast, hknown⟩
    obtain ⟨missing, rfl⟩ := hunknown e ((h.eq_error_iff hknown).mpr hlast)
    exact absurd rfl (hknown missing)

/-- To get a grammar gives what requiring it gives, and publishes the same. A failure is reported
exactly if it is what the locator answered the request with, other than for an unknown name. -/
theorem get_reports (r : Registry) (name : String) :
    (r.run (.require name .done) = none → r.run (.get name) = none) ∧
      ∀ answer r', r.run (.require name .done) = some (answer, r') →
        ∃ r'', r.run (.get name) = some (answer.toOption, r'') ∧ r''.store = r'.store ∧
          (r'' = r' ∨ ∃ e, r'' = r'.emit (.locatorFailed name e)) ∧
          ∀ e, r'' = r'.emit (.locatorFailed name e) ↔
            (r.history (.require name .done)).getLast? =
                some (.answered (r.canonical name) (some (.error e))) ∧
              ∀ missing, e ≠ .unknownGrammar missing := by
  rw [run_require]
  refine ⟨run_get_of_require_eq_none, ?_⟩
  intro answer r' h
  have hanswers := answers_of_require h
  rcases answer with e | grammar
  · by_cases hunknown : ∃ missing, e = .unknownGrammar missing
    · obtain ⟨missing, rfl⟩ := hunknown
      refine ⟨r', run_get_of_unknown h, rfl, .inl rfl, hanswers.silent ?_⟩
      rintro _ ⟨⟩
      exact ⟨missing, rfl⟩
    · have hknown : ∀ missing, e ≠ .unknownGrammar missing := fun missing heq =>
        hunknown ⟨missing, heq⟩
      refine ⟨_, run_get_of_failure hknown h, rfl, .inr ⟨e, rfl⟩, ?_⟩
      intro other
      constructor
      · intro heq
        cases emit_injective heq
        exact ⟨(hanswers.eq_error_iff hknown).mp rfl, hknown⟩
      · rintro ⟨hlast, hother⟩
        cases (hanswers.eq_error_iff hother).mpr hlast
        rfl
  · exact ⟨r', run_get_of_ok h, rfl, .inl rfl, hanswers.silent (by simp)⟩

/-- A locator that fails for both of its names: there is no base for the one, and there are no
patterns for the other. -/
def careless : Locator where
  grammar name :=
    if name = "orphan" then some <$> (Build.extend "missing" "orphan" []).run
    else if name = "bare" then .done (some (.error (.emptyToken "word")))
    else .done none
  languages := ["orphan", "bare"]
  depth := 2

theorem get_reports_bare :
    ∃ r'', (withLocator careless).run (.get "bare") = some (none, r'') ∧
      r''.events = [.locatorFailed "bare" (.emptyToken "word")] := by
  obtain ⟨r'', hget, -, -, hreports⟩ := (get_reports (withLocator careless) "bare").2 _ _ rfl
  refine ⟨r'', hget, ?_⟩
  rw [(hreports (.emptyToken "word")).mpr ⟨rfl, by simp⟩]
  rfl

/-- The failure of a locator that had no base to build on goes unreported. -/
theorem not_get_reports_missing_base :
    ¬ ∀ (r r'' : Registry) (name : String) (e : GrammarError),
      (r.history (.require name .done)).getLast? =
          some (.answered (r.canonical name) (some (.error e))) →
        r.run (.get name) = some (none, r'') → .locatorFailed name e ∈ r''.events := by
  intro h
  have hreported := h (withLocator careless) _ "orphan" (.unknownGrammar "missing") rfl rfl
  exact absurd hreported (by decide)

end Registry

end Highlight
