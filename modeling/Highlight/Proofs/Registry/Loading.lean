import Highlight.Proofs.Registry.Reading
import Highlight.Registry.Run

/-!
Loading when needed. What a locator builds by reading only is settled by the registry as it was at
first (`Registry.meaning`), so that a registry only ever grows by what was settled from the start
(`Registry.Grown`), and answers accordingly (`Registry.Grown.exists_run`).
-/

namespace Highlight

namespace Registry

/-- The answer to a request, if a name that is not published means what `meaning` says. -/
def answerBy (r : Registry) (meaning : String → Except GrammarError Grammar) (name : String) :
    Except GrammarError Grammar :=
  match r.published? name with
  | some grammar => .ok grammar
  | none => meaning (r.canonical name)

/-- What the locator builds for a name when it is given everything anew, up to a depth. -/
def built (r : Registry) : (depth : Nat) → (name : String) → Except GrammarError Grammar
  | 0, name => .error (.unknownGrammar name)
  | depth + 1, name =>
      match r.locator.bind fun locator =>
        (locator.grammar name).valueBy (r.answerBy (r.built depth)) with
      | some (some result) => result
      | _ => .error (.unknownGrammar name)

/-- What a name stands for that is not published, where `rank` says how deep it lies. -/
def meaning (r : Registry) (rank : String → Nat) (name : String) : Except GrammarError Grammar :=
  r.built (rank name + 1) name

/-- A name can be loaded within the depth of the locator. -/
def InDepth (r : Registry) (rank : String → Nat) (name : String) : Prop :=
  ∀ locator, r.locator = some locator → rank name < locator.depth

/-- Names stand for names that stand for themselves, and what the locator builds for a name it
builds from names of lower rank, by reading. -/
structure Layered (r : Registry) (rank : String → Nat) : Prop where
  canonical_canonical : ∀ name, r.canonical (r.canonical name) = r.canonical name
  reads : ∀ locator, r.locator = some locator → ∀ name, rank name < locator.depth →
    (locator.grammar name).Reads fun base => rank (r.canonical base) < rank name

variable {r : Registry} {rank : String → Nat}

theorem published?_eq_none_iff {name : String} :
    r.published? name = none ↔
      r.store.find? name = none ∧ r.store.find? (r.canonical name) = none := by
  unfold published?
  split
  next g hfind => simp [hfind]
  next hnone => simp [hnone]

theorem meaning_of_locator_eq_none (h : r.locator = none) (name : String) :
    r.meaning rank name = .error (.unknownGrammar name) := by
  rw [meaning, built, h]
  rfl

namespace Layered

theorem built_eq (h : r.Layered rank) {depth : Nat} {name : String} (hname : r.InDepth rank name)
    (hlt : rank name < depth) : r.built depth name = r.meaning rank name := by
  induction hrank : rank name using Nat.strongRecOn generalizing name depth with
  | ind n ih =>
      subst hrank
      obtain ⟨depth, rfl⟩ : ∃ d, depth = d + 1 := ⟨depth - 1, by omega⟩
      rw [meaning, built, built]
      cases hlocator : r.locator with
      | none => rfl
      | some locator =>
          have hreads := h.reads locator hlocator name (hname locator hlocator)
          rw [Option.bind_some, Option.bind_some, hreads.valueBy_congr ?_]
          intro base hbase
          unfold answerBy
          cases r.published? base with
          | some grammar => rfl
          | none =>
              have hin : r.InDepth rank (r.canonical base) := fun other hother =>
                Nat.lt_trans hbase (hname other hother)
              simp only
              rw [ih _ hbase hin (by omega) rfl, ih _ hbase hin (by omega) rfl]

/-- What a name means is what the locator builds from what other names mean. -/
theorem meaning_eq (h : r.Layered rank) {locator : Locator} (hlocator : r.locator = some locator)
    {name : String} (hlt : rank name < locator.depth) :
    r.meaning rank name =
      match (locator.grammar name).valueBy (r.answerBy (r.meaning rank)) with
      | some (some result) => result
      | _ => .error (.unknownGrammar name) := by
  have hreads := h.reads locator hlocator name hlt
  rw [meaning, built, hlocator, Option.bind_some, hreads.valueBy_congr ?_]
  intro base hbase
  unfold answerBy
  cases r.published? base with
  | some grammar => rfl
  | none =>
      refine h.built_eq ?_ hbase
      intro other hother
      rw [hlocator] at hother
      cases hother
      exact Nat.lt_trans hbase hlt

end Layered

/-- A registry after some loading: `r` with what the locator built added, under names that stand
for themselves. -/
structure Grown (r : Registry) (rank : String → Nat) (r' : Registry) : Prop where
  locator_eq : r'.locator = r.locator
  synonyms_eq : r'.store.synonyms = r.store.synonyms
  find?_eq : ∀ key, r'.store.find? key = r.store.find? key ∨
    r.store.find? key = none ∧ r.canonical key = key ∧
      ∃ g, r'.store.find? key = some g ∧ r.meaning rank key = .ok g

/-- A way to load names as `P` says, which gives what they mean. -/
def Loads (r : Registry) (rank : String → Nat) (P : String → Prop) (load : Load) : Prop :=
  ∀ name r', P name → r.canonical name = name → r.store.find? name = none → r.Grown rank r' →
    ∃ r'', load name r' = some (r.meaning rank name, r'') ∧ r.Grown rank r''

namespace Grown

variable {r' : Registry} {P : String → Prop} {load : Load}

theorem refl (r : Registry) (rank : String → Nat) : r.Grown rank r :=
  ⟨rfl, rfl, fun _ => .inl rfl⟩

theorem canonical_eq (h : r.Grown rank r') (name : String) :
    r'.canonical name = r.canonical name := by
  rw [canonical, canonical, h.locator_eq, h.synonyms_eq]

theorem find?_eq_none (h : r.Grown rank r') {key : String} (hnone : r'.store.find? key = none) :
    r.store.find? key = none := by
  rcases h.find?_eq key with heq | ⟨hfirst, -⟩
  · rw [← heq, hnone]
  · exact hfirst

/-- What is published answers a request as the registry did at first, or would have. -/
theorem answerBy_of_published? (h : r.Grown rank r') {name : String} {g : Grammar}
    (hpublished : r'.published? name = some g) : r.answerBy (r.meaning rank) name = .ok g := by
  unfold published? at hpublished
  unfold answerBy published?
  split at hpublished
  next found hfind =>
    cases hpublished
    rcases h.find?_eq name with heq | ⟨hnone, hcanonical, g', hfind', hmeaning⟩
    · rw [← heq, hfind]
    · rw [hfind] at hfind'
      cases hfind'
      rw [hnone, hcanonical, hnone]
      exact hmeaning
  next hnone =>
    rw [h.canonical_eq] at hpublished
    rw [h.find?_eq_none hnone]
    rcases h.find?_eq (r.canonical name) with heq | ⟨hfirst, -, g', hfind, hmeaning⟩
    · rw [← heq, hpublished]
    · rw [hfind] at hpublished
      cases hpublished
      rw [hfirst]
      exact hmeaning

theorem noteAsked (h : r.Grown rank r') (name : String) : r.Grown rank (r'.noteAsked name) :=
  ⟨h.locator_eq, h.synonyms_eq, h.find?_eq⟩

theorem emit (h : r.Grown rank r') (event : Event) : r.Grown rank (r'.emit event) :=
  ⟨h.locator_eq, h.synonyms_eq, h.find?_eq⟩

theorem publishLocated (h : r.Grown rank r') {name : String} {g : Grammar}
    (hcanonical : r.canonical name = name) (hnone : r.store.find? name = none)
    (hmeaning : r.meaning rank name = .ok g) :
    r.Grown rank (r'.publishLocated name g) ∧
      (r'.publishLocated name g).store.find? name = some g := by
  have hfind : ∀ key, (r'.publishLocated name g).store.find? key =
      if key = name then some g else r'.store.find? key := by
    intro key
    simp only [Registry.publishLocated, Store.find?, Table.find?_insertNew]
    split
    next =>
      rcases h.find?_eq name with heq | ⟨-, -, g', hfind, hmeaning'⟩
      · rw [hnone] at heq
        rw [show r'.store.grammars.find? name = none from heq]
        rfl
      · rw [hmeaning] at hmeaning'
        cases hmeaning'
        rw [show r'.store.grammars.find? name = some g from hfind]
        rfl
    next => rfl
  refine ⟨⟨h.locator_eq, h.synonyms_eq, ?_⟩, by rw [hfind, if_pos rfl]⟩
  intro key
  rw [hfind]
  split
  next heq =>
    subst heq
    exact .inr ⟨hnone, hcanonical, g, rfl, hmeaning⟩
  next => exact h.find?_eq key

theorem exists_require (h : r.Grown rank r') (hlayered : r.Layered rank)
    (hload : r.Loads rank P load) {name : String} (hname : P (r.canonical name)) :
    ∃ r'', r'.require load name = some (r.answerBy (r.meaning rank) name, r'') ∧
      r.Grown rank r'' := by
  unfold require
  split
  next g hpublished => exact ⟨r', by rw [h.answerBy_of_published? hpublished], h⟩
  next hunpublished =>
    obtain ⟨hnone, hnone'⟩ := published?_eq_none_iff.mp hunpublished
    rw [h.canonical_eq] at hnone'
    have hfirst : r.published? name = none :=
      published?_eq_none_iff.mpr ⟨h.find?_eq_none hnone, h.find?_eq_none hnone'⟩
    rw [answerBy, hfirst, h.canonical_eq, h.locator_eq]
    split
    next =>
      exact hload _ r' hname (hlayered.canonical_canonical name) (h.find?_eq_none hnone') h
    next hlocator =>
      have hlocator : r.locator = none := by simpa using hlocator
      exact ⟨r', by rw [meaning_of_locator_eq_none hlocator], h⟩

/-- A session that only reads ends with what it ends with on the answers that the registry gave
at first, or would have given. -/
theorem exists_runWith {α : Type} (h : r.Grown rank r') (hlayered : r.Layered rank)
    (hload : r.Loads rank P load) {session : Session α}
    (hreads : session.Reads fun name => P (r.canonical name)) :
    ∃ a r'', session.runWith load r' = some (a, r'') ∧
      session.valueBy (r.answerBy (r.meaning rank)) = some a ∧ r.Grown rank r'' := by
  induction session generalizing r' with
  | done value => exact ⟨value, r', rfl, rfl, h⟩
  | require name next ih =>
      obtain ⟨between, hrequire, hbetween⟩ := h.exists_require hlayered hload hreads.1
      obtain ⟨a, r'', hrun, hvalue, hgrown⟩ := ih _ hbetween (hreads.2 _)
      refine ⟨a, r'', ?_, hvalue, hgrown⟩
      rw [Session.runWith, hrequire]
      exact hrun
  | register grammar next ih => exact hreads.elim
  | addSynonym synonym target next ih => exact hreads.elim
  | inspect next ih => exact hreads.elim
  | emit event next ih => exact ih (h.emit event) hreads

end Grown

namespace Layered

theorem loads_locator (h : r.Layered rank) {locator : Locator} (hlocator : r.locator = some locator)
    {depth : Nat} (hdepth : depth ≤ locator.depth) :
    r.Loads rank (fun name => rank name < depth) (locator.load depth) := by
  induction depth with
  | zero => exact fun name r' hlt => absurd hlt (Nat.not_lt_zero _)
  | succ depth ih =>
      intro name r' hlt hcanonical hnone hgrown
      have hbelow : rank name < locator.depth := by omega
      have hreads : (locator.grammar name).Reads fun base => rank (r.canonical base) < depth :=
        (h.reads locator hlocator name hbelow).mono fun base hbase => by omega
      obtain ⟨answer, between, hrun, hvalue, hbetween⟩ :=
        (hgrown.noteAsked name).exists_runWith h (ih (by omega)) hreads
      have hmeaning := h.meaning_eq hlocator hbelow
      rw [hvalue] at hmeaning
      have hload : locator.load (depth + 1) name r' =
          some (Locator.settle name answer between) := by
        rw [Locator.load, hrun]
        rfl
      rw [hload, hmeaning]
      rcases answer with _ | e | g
      · exact ⟨between, rfl, hbetween⟩
      · exact ⟨between, rfl, hbetween⟩
      · obtain ⟨hpublished, hfind⟩ :=
          (hbetween.emit (.loaded name g.name)).publishLocated hcanonical hnone hmeaning
        refine ⟨_, ?_, hpublished⟩
        rw [Locator.settle, hfind]
        rfl

theorem loads (h : r.Layered rank) : r.Loads rank (r.InDepth rank) r.load := by
  unfold load
  split
  next locator hlocator =>
    intro name r' hname
    exact h.loads_locator hlocator (Nat.le_refl _) name r' (hname locator hlocator)
  next hlocator =>
    intro name r' _ _ _ hgrown
    exact ⟨r', by rw [meaning_of_locator_eq_none hlocator], hgrown⟩

end Layered

theorem Grown.load_eq {r' : Registry} (h : r.Grown rank r') : r'.load = r.load := by
  unfold load
  rw [h.locator_eq]

theorem Grown.exists_run {α : Type} {r' : Registry} (h : r.Grown rank r')
    (hlayered : r.Layered rank) {session : Session α}
    (hreads : session.Reads fun name => r.InDepth rank (r.canonical name)) :
    ∃ a r'', r'.run session = some (a, r'') ∧
      session.valueBy (r.answerBy (r.meaning rank)) = some a ∧ r.Grown rank r'' := by
  rw [run, h.load_eq]
  exact h.exists_runWith hlayered hlayered.loads hreads

theorem Grown.eq_of_find? {r₁ r₂ : Registry} (h₁ : r.Grown rank r₁) (h₂ : r.Grown rank r₂)
    {key : String} {g₁ g₂ : Grammar} (hfind₁ : r₁.store.find? key = some g₁)
    (hfind₂ : r₂.store.find? key = some g₂) : g₁ = g₂ := by
  have hmeans {r' : Registry} {g : Grammar} (h : r.Grown rank r')
      (hfind : r'.store.find? key = some g) :
      (r.store.find? key).or (r.meaning rank key).toOption = some g := by
    rcases h.find?_eq key with heq | ⟨hnone, -, g', hfind', hmeaning⟩
    · rw [← heq, hfind]
      rfl
    · rw [hfind] at hfind'
      cases hfind'
      rw [hnone, hmeaning]
      rfl
  exact Option.some.inj ((hmeans h₁ hfind₁).symm.trans (hmeans h₂ hfind₂))

end Registry

end Highlight
