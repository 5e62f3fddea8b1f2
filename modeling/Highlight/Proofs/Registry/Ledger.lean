import Highlight.Proofs.Registry.AtHand
import Highlight.Proofs.Registry.History
import Highlight.Proofs.Registry.Requests
import Mathlib.Data.Finset.Sort
import Mathlib.Data.String.Basic

/-!
The log as a ledger. At each moment of what is done with a registry, also while a locator builds a
grammar for it, its names are those that events have reported to be published, and each event that
reports a publication was true when it was emitted (`Registry.names_of_log`).
-/

namespace Highlight

namespace Table

variable {α : Type} {t : Table α} {key : String}

theorem mem_keys_iff : key ∈ t.keys ↔ t.contains key = true := by
  rw [contains, find?, List.lookup_isSome_iff, keys, List.mem_map]
  constructor
  · rintro ⟨entry, hmem, rfl⟩
    exact ⟨entry, hmem, beq_self_eq_true _⟩
  · rintro ⟨entry, hmem, hkey⟩
    exact ⟨entry, hmem, (beq_iff_eq.mp hkey).symm⟩

theorem mem_keys_insert_iff {value : α} {other : String} :
    other ∈ (t.insert key value).keys ↔ other = key ∨ other ∈ t.keys := by
  rw [mem_keys_iff, mem_keys_iff, contains, contains, find?_insert]
  by_cases h : other = key
  · simp [h]
  · simp [h]

theorem mem_keys_insertNew_iff {value : α} {other : String} :
    other ∈ (t.insertNew key value).keys ↔ other = key ∨ other ∈ t.keys := by
  rw [mem_keys_iff, mem_keys_iff, contains, contains, find?_insertNew]
  by_cases h : other = key
  · simp [h]
  · simp [h]

theorem nodup_keys_insert (h : t.keys.Nodup) (value : α) : (t.insert key value).keys.Nodup := by
  obtain ⟨entries⟩ := t
  induction entries with
  | nil => exact List.nodup_singleton key
  | cons entry rest ih =>
      obtain ⟨k, v⟩ := entry
      obtain ⟨hfresh, hrest⟩ := List.nodup_cons.mp h
      by_cases hkey : key = k
      · subst hkey
        simpa [insert, insert.go, keys] using h
      · have hothers : ((⟨rest⟩ : Table α).insert key value).keys.Nodup := ih hrest
        have hk : k ∉ ((⟨rest⟩ : Table α).insert key value).keys := by
          rw [mem_keys_insert_iff, not_or]
          exact ⟨fun heq => hkey heq.symm, hfresh⟩
        have hstep : ((⟨(k, v) :: rest⟩ : Table α).insert key value).keys =
            k :: ((⟨rest⟩ : Table α).insert key value).keys := by
          simp [insert, insert.go, keys, beq_false_of_ne hkey]
        rw [hstep]
        exact List.nodup_cons.mpr ⟨hk, hothers⟩

theorem nodup_keys_insertNew (h : t.keys.Nodup) (value : α) :
    (t.insertNew key value).keys.Nodup := by
  unfold insertNew
  split
  · exact h
  · exact nodup_keys_insert h value

end Table

namespace Registry

/-- What is published in a registry is what its log reports, and each name has been reported as new
once at most and as published again only where it was, in one of the registries that have been
`seen`. -/
structure Ledger (seen : Registry → Prop) (r : Registry) : Prop where
  nodup_keys : r.store.grammars.keys.Nodup
  mem_keys_iff : ∀ name, name ∈ r.store.grammars.keys ↔ name ∈ r.events.filterMap Event.published?
  nodup_registered : (r.events.filterMap Event.registered?).Nodup
  replaced : ∀ before event after name, r.events = before ++ event :: after →
    event.replaced? = some name →
      ∃ earlier, seen earlier ∧ earlier.events = before ∧ earlier.store.contains name = true

@[simp] theorem events_emit (r : Registry) (event : Event) :
    (r.emit event).events = r.events ++ [event] :=
  List.reverse_cons

namespace Ledger

variable {seen : Registry → Prop} {r r' : Registry} {event : Event} {name : String}

theorem of_empty (hempty : r.store = .empty) (hlog : r.log = []) : r.Ledger seen := by
  have hevents : r.events = [] := by rw [events, hlog, List.reverse_nil]
  refine ⟨?_, ?_, ?_, ?_⟩
  · rw [hempty]
    exact List.nodup_nil
  · rw [hempty, hevents]
    exact fun name => Iff.rfl
  · rw [hevents]
    exact List.nodup_nil
  · intro before event after name hsplit
    simp [hevents] at hsplit

/-- Nothing is published, and no event reports that. -/
theorem aside (h : r.Ledger seen) (hgrammars : r'.store.grammars = r.store.grammars)
    (hevents : r'.events = r.events) : r'.Ledger seen where
  nodup_keys := hgrammars ▸ h.nodup_keys
  mem_keys_iff := by rw [hgrammars, hevents]; exact h.mem_keys_iff
  nodup_registered := hevents ▸ h.nodup_registered
  replaced := by rw [hevents]; exact h.replaced

theorem replaced_concat (h : r.Ledger seen)
    (hreplaced : ∀ name, event.replaced? = some name → seen r ∧ r.store.contains name = true)
    {before after : List Event} {other : Event}
    (hsplit : r.events ++ [event] = before ++ other :: after)
    (hother : other.replaced? = some name) :
    ∃ earlier, seen earlier ∧ earlier.events = before ∧ earlier.store.contains name = true := by
  rcases exists_of_append_eq_append_cons hsplit with ⟨rest, hevents, -⟩ | ⟨front, rfl, hlast⟩
  · exact h.replaced before other rest name hevents hother
  · cases front with
    | nil =>
        obtain ⟨heq, -⟩ := List.cons.inj hlast
        subst heq
        obtain ⟨hseen, hcontains⟩ := hreplaced name hother
        exact ⟨r, hseen, (List.append_nil _).symm, hcontains⟩
    | cons => simp at hlast

/-- An event that reports no publication. -/
theorem emit (h : r.Ledger seen) (hevent : event.published? = none) :
    (r.emit event).Ledger seen := by
  have hregistered : event.registered? = none := by
    cases hsome : event.registered? with
    | none => rfl
    | some name => simp [Event.published?_of_registered? hsome] at hevent
  refine ⟨h.nodup_keys, ?_, ?_, ?_⟩
  · intro name
    rw [events_emit, List.filterMap_append, List.mem_append, ← h.mem_keys_iff]
    simp [hevent, Registry.emit]
  · rw [events_emit, List.filterMap_append]
    simpa [hregistered] using h.nodup_registered
  · intro before other after name hsplit hother
    rw [events_emit] at hsplit
    refine h.replaced_concat (fun name hname => ?_) hsplit hother
    simp [Event.published?_of_replaced? hname] at hevent

theorem addSynonym (h : r.Ledger seen) (synonym target : String) :
    (r.addSynonym synonym target).Ledger seen := by
  have hemitted : (r.emit (.aliased synonym target)).Ledger seen := h.emit rfl
  exact hemitted.aside rfl rfl

/-- A publication, with the event that reports it. -/
theorem publish (h : r.Ledger seen) (hevents : r'.events = r.events ++ [event])
    (hnodup : r'.store.grammars.keys.Nodup)
    (hkeys : ∀ other, other ∈ r'.store.grammars.keys ↔ other = name ∨ other ∈ r.store.grammars.keys)
    (hpublished : event.published? = some name)
    (hregistered : ∀ other, event.registered? = some other → r.store.contains other = false)
    (hreplaced : ∀ other, event.replaced? = some other →
      seen r ∧ r.store.contains other = true) : r'.Ledger seen := by
  refine ⟨hnodup, ?_, ?_, ?_⟩
  · intro other
    rw [hkeys, hevents, List.filterMap_append, List.mem_append, ← h.mem_keys_iff, or_comm]
    simp [hpublished, eq_comm]
  · rw [hevents, List.filterMap_append]
    refine List.nodup_append.mpr ⟨h.nodup_registered, ?_, ?_⟩
    · cases hsome : event.registered? <;> simp [hsome]
    · intro earlier hearlier other hother heq
      subst heq
      obtain ⟨past, hpast, hearlier⟩ := List.mem_filterMap.mp hearlier
      have hother : event.registered? = some earlier := by simpa using hother
      have hmem := (h.mem_keys_iff earlier).mpr
        (List.mem_filterMap.mpr ⟨past, hpast, Event.published?_of_registered? hearlier⟩)
      have hcontains : r.store.contains earlier = true := Table.mem_keys_iff.mp hmem
      simp [hregistered earlier hother] at hcontains
  · intro before other after name hsplit hother
    rw [hevents] at hsplit
    exact h.replaced_concat hreplaced hsplit hother

theorem register (h : r.Ledger seen) (hseen : seen r) (grammar : Grammar) :
    (r.register grammar).Ledger seen := by
  have hnodup : (r.register grammar).store.grammars.keys.Nodup :=
    Table.nodup_keys_insert h.nodup_keys grammar
  have hkeys : ∀ other, other ∈ (r.register grammar).store.grammars.keys ↔
      other = grammar.name ∨ other ∈ r.store.grammars.keys := fun other =>
    Table.mem_keys_insert_iff
  cases hcontains : r.store.contains grammar.name with
  | true =>
      have hevents : (r.register grammar).events = r.events ++ [.replaced grammar.name] := by
        simp [Registry.register, hcontains, events, Registry.emit]
      refine h.publish hevents hnodup hkeys rfl (by rintro _ ⟨⟩) ?_
      rintro _ ⟨⟩
      exact ⟨hseen, hcontains⟩
  | false =>
      have hevents : (r.register grammar).events =
          r.events ++ [.registered grammar.name grammar.size] := by
        simp [Registry.register, hcontains, events, Registry.emit]
      refine h.publish hevents hnodup hkeys rfl ?_ (by rintro _ ⟨⟩)
      rintro _ ⟨⟩
      exact hcontains

theorem settle (h : r.Ledger seen) (name : String) (given : Option (Except GrammarError Grammar)) :
    (Locator.settle name given r).2.Ledger seen := by
  rcases given with _ | e | grammar
  · exact h
  · exact h
  · have hevents : (Locator.settle name (some (.ok grammar)) r).2.events =
        r.events ++ [.loaded name grammar.name] := List.reverse_cons
    exact h.publish hevents (Table.nodup_keys_insertNew h.nodup_keys grammar)
      (fun other => Table.mem_keys_insertNew_iff) rfl (by rintro _ ⟨⟩) (by rintro _ ⟨⟩)

/-- The names in order are those of all publications reported. -/
theorem names_eq (h : r.Ledger seen) :
    r.names = (r.events.filterMap Event.published?).toFinset.sort (· ≤ ·) := by
  have hperm : r.names.Perm r.store.grammars.keys := List.mergeSort_perm _ _
  have hsorted : r.names.Pairwise fun a b => decide (a ≤ b) = true :=
    List.pairwise_mergeSort (by simpa using fun a b c => le_trans) (by simpa using le_total) _
  have hset : (r.events.filterMap Event.published?).toFinset = r.names.toFinset := by
    ext name
    rw [List.mem_toFinset, List.mem_toFinset, ← h.mem_keys_iff, hperm.mem_iff]
  rw [hset, (List.toFinset_sort _ (hperm.nodup_iff.mpr h.nodup_keys)).mpr]
  exact hsorted.imp of_decide_eq_true

end Ledger

/-- The registries in the course of a request for a grammar, before its answer. There are none
unless the locator is asked; `inner` tells which there are then. -/
def requireMoments (inner : String → Registry → List Registry) (name : String) (r : Registry) :
    List Registry :=
  match r.published? name with
  | some _ => []
  | none => if r.locator.isSome then inner (r.canonical name) r else []

end Registry

/-- The registries in the course of a session: one before each request, those in the course of a
request, and one at the end. -/
def Session.momentsWith {α : Type} (inner : String → Registry → List Registry) (load : Load) :
    Session α → Registry → List Registry
  | .done _, r => [r]
  | .require name next, r =>
      r :: (r.requireMoments inner name ++
        match r.require load name with
        | none => []
        | some (answer, r) => (next answer).momentsWith inner load r)
  | .register grammar next, r => r :: next.momentsWith inner load (r.register grammar)
  | .addSynonym synonym target next, r =>
      r :: next.momentsWith inner load (r.addSynonym synonym target)
  | .inspect next, r => r :: (next r.store).momentsWith inner load r
  | .emit event next, r => r :: next.momentsWith inner load (r.emit event)

/-- The registries while a locator builds a grammar, also in what it asks for in doing so. -/
def Locator.moments (locator : Locator) : (depth : Nat) → String → Registry → List Registry
  | 0, _, _ => []
  | depth + 1, name, r =>
      (locator.grammar name).momentsWith (locator.moments depth) (locator.load depth)
        (r.noteAsked name)

namespace Registry

def innerMoments (r : Registry) : String → Registry → List Registry :=
  match r.locator with
  | some locator => locator.moments locator.depth
  | none => fun _ _ => []

def moments {α : Type} (r : Registry) (session : Session α) : List Registry :=
  session.momentsWith r.innerMoments r.load r

theorem mem_momentsWith_of_runWith {inner : String → Registry → List Registry} {load : Load}
    {α : Type} {session : Session α} {r r' : Registry} {a : α}
    (h : session.runWith load r = some (a, r')) : r' ∈ session.momentsWith inner load r := by
  induction session generalizing r with
  | done value =>
      cases h
      exact List.mem_cons_self
  | require name next ih =>
      obtain ⟨⟨answer, between⟩, hrequire, hnext⟩ := Option.bind_eq_some_iff.mp h
      rw [Session.momentsWith, hrequire]
      exact List.mem_cons_of_mem _ (List.mem_append_right _ (ih answer hnext))
  | register grammar next ih => exact List.mem_cons_of_mem _ (ih h)
  | addSynonym synonym target next ih => exact List.mem_cons_of_mem _ (ih h)
  | inspect next ih => exact List.mem_cons_of_mem _ (ih r.store h)
  | emit event next ih => exact List.mem_cons_of_mem _ (ih h)

/-- A way to get grammars that keeps accounts: if all registries in the course of it have been
`seen`, what is published is what is reported in each of them, and in the one that results. -/
def KeepsLedger (seen : Registry → Prop) (inner : String → Registry → List Registry)
    (load : Load) : Prop :=
  ∀ name r, r.Ledger seen → (∀ moment ∈ inner name r, seen moment) →
    (∀ moment ∈ inner name r, moment.Ledger seen) ∧
      ∀ answer r', load name r = some (answer, r') → r'.Ledger seen

section

open Session

variable {seen : Registry → Prop} {inner : String → Registry → List Registry} {load : Load}
  {r : Registry}

theorem ledger_of_require (hload : KeepsLedger seen inner load) {name : String}
    (h : r.Ledger seen) (hseen : ∀ moment ∈ r.requireMoments inner name, seen moment) :
    (∀ moment ∈ r.requireMoments inner name, moment.Ledger seen) ∧
      ∀ answer r', r.require load name = some (answer, r') → r'.Ledger seen := by
  unfold requireMoments at hseen ⊢
  unfold require
  cases hpublished : r.published? name with
  | some grammar =>
      refine ⟨by simp, ?_⟩
      rintro _ _ ⟨⟩
      exact h
  | none =>
      by_cases hlocated : r.locator.isSome
      · simp only [hpublished, if_pos hlocated] at hseen ⊢
        exact hload _ r h hseen
      · simp only [if_neg hlocated]
        refine ⟨by simp, ?_⟩
        rintro _ _ ⟨⟩
        exact h

/-- Each request of a session keeps to the accounts, if none reports what is the registry's to
report. -/
theorem ledger_of_mem_momentsWith (hload : KeepsLedger seen inner load) {α : Type}
    {session : Session α} (hsession : session.Makes Request.LeavesReports) (h : r.Ledger seen)
    (hseen : ∀ moment ∈ session.momentsWith inner load r, seen moment) :
    ∀ moment ∈ session.momentsWith inner load r, moment.Ledger seen := by
  induction session generalizing r with
  | done value => exact List.forall_mem_singleton.mpr h
  | require name next ih =>
      rw [momentsWith] at hseen ⊢
      obtain ⟨-, hrest⟩ := List.forall_mem_cons.mp hseen
      obtain ⟨hduring, hafter⟩ := List.forall_mem_append.mp hrest
      obtain ⟨hledgers, hanswered⟩ := ledger_of_require hload h hduring
      refine List.forall_mem_cons.mpr ⟨h, List.forall_mem_append.mpr ⟨hledgers, ?_⟩⟩
      cases hrequire : r.require load name with
      | none => simp
      | some result =>
          obtain ⟨answer, between⟩ := result
          simp only [hrequire] at hafter
          exact ih answer (hsession.2 answer) (hanswered answer between hrequire) hafter
  | register grammar next ih =>
      obtain ⟨hnow, hrest⟩ := List.forall_mem_cons.mp hseen
      -- If this replaces a grammar, the registry as it is now is the one that has been seen.
      exact List.forall_mem_cons.mpr ⟨h, ih hsession.2 (h.register hnow grammar) hrest⟩
  | addSynonym synonym target next ih =>
      obtain ⟨-, hrest⟩ := List.forall_mem_cons.mp hseen
      exact List.forall_mem_cons.mpr ⟨h, ih hsession.2 (h.addSynonym synonym target) hrest⟩
  | inspect next ih =>
      obtain ⟨-, hrest⟩ := List.forall_mem_cons.mp hseen
      exact List.forall_mem_cons.mpr ⟨h, ih r.store (hsession.2 r.store) h hrest⟩
  | emit event next ih =>
      obtain ⟨-, hrest⟩ := List.forall_mem_cons.mp hseen
      exact List.forall_mem_cons.mpr ⟨h, ih hsession.2 (h.emit (hsession.1 event rfl)) hrest⟩

/-- However deep the requests of a locator go, it keeps to the accounts. -/
theorem keepsLedger_load {locator : Locator} (hlocator : locator.Makes Request.LeavesReports)
    (depth : Nat) : KeepsLedger seen (locator.moments depth) (locator.load depth) := by
  induction depth with
  | zero =>
      intro name r h hseen
      exact ⟨by simp [Locator.moments], by rintro _ _ ⟨⟩⟩
  | succ depth ih =>
      intro name r h hseen
      have hasked : (r.noteAsked name).Ledger seen := h.aside rfl rfl
      have hmoments := ledger_of_mem_momentsWith ih (hlocator name) hasked hseen
      refine ⟨hmoments, ?_⟩
      intro answer r' hload
      obtain ⟨⟨given, between⟩, hbuild, hsettle⟩ := Option.bind_eq_some_iff.mp hload
      have hr' : r' = (Locator.settle name given between).2 :=
        congrArg Prod.snd (Option.some.inj hsettle).symm
      rw [hr']
      exact (hmoments between (mem_momentsWith_of_runWith hbuild)).settle name given

theorem keepsLedger_innerMoments
    (hlocator : ∀ locator, r.locator = some locator → locator.Makes Request.LeavesReports) :
    KeepsLedger seen r.innerMoments r.load := by
  unfold innerMoments load
  cases hlocated : r.locator with
  | some locator => exact keepsLedger_load (hlocator locator hlocated) locator.depth
  | none =>
      intro name r h hseen
      refine ⟨by simp, ?_⟩
      rintro _ _ ⟨⟩
      exact h

/-- For a registry that starts empty, at each moment of a session, in the building of grammars too,
the names are those that events have reported as published. A name is reported as new once at most,
and as published again only after a moment at which it was published. -/
theorem names_of_log {α : Type} {session : Session α} {start : Registry}
    (hempty : start.store = .empty) (hlog : start.log = [])
    (hsession : session.Makes Request.LeavesReports)
    (hlocator : ∀ locator, start.locator = some locator →
      locator.Makes Request.LeavesReports) :
    (∀ a r, start.run session = some (a, r) → r ∈ start.moments session) ∧
      ∀ r ∈ start.moments session,
        r.names = (r.events.filterMap Event.published?).toFinset.sort (· ≤ ·) ∧
        (r.events.filterMap Event.registered?).Nodup ∧
        ∀ before event after name, r.events = before ++ event :: after →
          event.replaced? = some name →
            ∃ earlier ∈ start.moments session, earlier.events = before ∧
              earlier.store.contains name = true := by
  refine ⟨fun a r hrun => mem_momentsWith_of_runWith hrun, ?_⟩
  intro r hmoment
  have hstart : start.Ledger (· ∈ start.moments session) := .of_empty hempty hlog
  have h := ledger_of_mem_momentsWith (keepsLedger_innerMoments hlocator) hsession hstart
    (fun _ hmem => hmem) r hmoment
  exact ⟨h.names_eq, h.nodup_registered, h.replaced⟩

end

theorem working_hasty : hasty.Makes Session.Request.Working := by
  intro name
  simp only [hasty]
  split
  next =>
    exact ⟨Session.Request.working_register _, Session.Request.working_require _, fun _ => trivial⟩
  next => split <;> trivial

theorem names_of_log_hasty :
    let session : Session Unit := .register (.empty "inner") (.require "outer" fun _ =>
      .register (.empty "outer") (.done ()))
    ∃ r, (withLocator hasty).run session = some ((), r) ∧
      r.events = [.registered "inner" 0, .registered "outer" 0, .loaded "outer" "late",
        .replaced "outer"] ∧
      r.names = ["inner", "outer"] := by
  intro session
  have hsession : session.Makes Session.Request.Working :=
    ⟨Session.Request.working_register _, Session.Request.working_require _, fun _ =>
      ⟨Session.Request.working_register _, trivial⟩⟩
  have hlocator : ∀ locator, (withLocator hasty).locator = some locator →
      locator.Makes Session.Request.LeavesReports := by
    rintro _ ⟨⟩ name
    exact (working_hasty name).mono fun _ hworking => hworking.leavesReports
  obtain ⟨r, hrun⟩ : ∃ r, (withLocator hasty).run session = some ((), r) := ⟨_, rfl⟩
  have hevents : r.events = [.registered "inner" 0, .registered "outer" 0,
      .loaded "outer" "late", .replaced "outer"] := by
    cases hrun
    rfl
  have hempty : (withLocator hasty).store = .empty := rfl
  obtain ⟨hend, hmoments⟩ := names_of_log hempty rfl
    (hsession.mono fun _ hworking => hworking.leavesReports) hlocator
  refine ⟨r, hrun, hevents, ?_⟩
  have hset : (r.events.filterMap Event.published?).toFinset = ["inner", "outer"].toFinset := by
    rw [hevents]
    decide
  rw [(hmoments r (hend () r hrun)).1, hset]
  have hnodup : ["inner", "outer"].Nodup := by decide
  exact (List.toFinset_sort (· ≤ ·) hnodup).mpr (by decide)

end Registry

end Highlight
