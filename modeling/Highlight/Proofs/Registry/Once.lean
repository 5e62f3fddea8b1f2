import Highlight.Proofs.Registry.AtHand
import Mathlib.Data.Nat.Basic
import Mathlib.Order.RelClasses

/-!
Locators that build each grammar from others of lower rank. All requests to a registry with such a
locator come to an end, and once the locator has given a grammar it is not asked for it again
(`Registry.loads_once`).
-/

namespace Highlight

/-- In the course of a session from `r` on, names are requested only as `P` says of the registry of
that moment, and no synonyms come into force but those that `inForce` allows. -/
def Session.Asks {α : Type} (locator : Locator) (inForce : Table String → Prop)
    (P : Registry → String → Prop) : Session α → Registry → Prop
  | .done _, _ => True
  | .require name next, r => P r name ∧
      ∀ turns answer r', (Session.require name .done).Runs locator r turns answer r' →
        (next answer).Asks locator inForce P r'
  | .register grammar next, r => next.Asks locator inForce P (r.register grammar)
  | .addSynonym synonym target next, r =>
      inForce (r.addSynonym synonym target).store.synonyms ∧
        next.Asks locator inForce P (r.addSynonym synonym target)
  | .inspect next, r => (next r.store).Asks locator inForce P r
  | .emit event next, r => next.Asks locator inForce P (r.emit event)

/-- A registry with this locator, and with synonyms that may be in force. -/
structure Registry.Stands (locator : Locator) (inForce : Table String → Prop) (r : Registry) :
    Prop where
  locator_eq : r.locator = some locator
  inForce : inForce r.store.synonyms

/-- A locator that builds each grammar from others of lower rank, under all synonyms that may be in
force. -/
def Locator.Ranked {ι : Type} [Preorder ι] (locator : Locator) (rank : String → ι)
    (inForce : Table String → Prop) : Prop :=
  ∀ name (r : Registry), r.Stands locator inForce →
    (locator.grammar name).Asks locator inForce
      (fun r base => rank (r.canonical base) < rank name) r

namespace Registry

variable {locator : Locator} {inForce : Table String → Prop} {r : Registry}

theorem Stands.settle (h : r.Stands locator inForce) (name : String)
    (given : Option (Except GrammarError Grammar)) :
    (Locator.settle name given r).2.Stands locator inForce := by
  rcases given with _ | e | grammar
  · exact h
  · exact h
  · exact ⟨h.locator_eq, h.inForce⟩

end Registry

namespace Session

variable {ι : Type} {locator : Locator} {rank : String → ι} {inForce : Table String → Prop}

theorem Runs.stands [Preorder ι] (hranked : locator.Ranked rank inForce) {α : Type}
    {session : Session α} {r r' : Registry} {turns : List Turn} {a : α}
    (h : session.Runs locator r turns a r')
    {P : Registry → String → Prop} (hasks : session.Asks locator inForce P r)
    (hr : r.Stands locator inForce) : r'.Stands locator inForce := by
  induction h generalizing P with
  | done => exact hr
  | published found _ ih => exact ih (hasks.2 _ _ _ (.published found (.done _ _))) hr
  | unlocated missing unlocated _ ih =>
      exact ih (hasks.2 _ _ _ (.unlocated missing unlocated (.done _ _))) hr
  | @located _ name _ r _ _ _ _ _ _ missing located build _ ihbuild ih =>
      have hasked : (r.noteAsked (r.canonical name)).Stands locator inForce :=
        ⟨hr.locator_eq, hr.inForce⟩
      have hbetween := ihbuild (hranked _ _ hasked) hasked
      exact ih (hasks.2 _ _ _ (.located missing located build (.done _ _)))
        (hbetween.settle _ _)
  | register _ ih => exact ih hasks ⟨hr.locator_eq, hr.inForce⟩
  | addSynonym _ ih => exact ih hasks.2 ⟨hr.locator_eq, hasks.1⟩
  | inspect _ ih => exact ih hasks hr
  | emit _ ih => exact ih hasks ⟨hr.locator_eq, hr.inForce⟩

/-- A session comes to an end if all that it asks the locator for can be built. -/
theorem exists_runs_of_builds [Preorder ι] (hranked : locator.Ranked rank inForce)
    {P : Registry → String → Prop}
    (hbuilds : ∀ (r : Registry) name, r.Stands locator inForce → P r name →
      ∃ talk given r', (locator.grammar (r.canonical name)).Runs locator
        (r.noteAsked (r.canonical name)) talk given r')
    {α : Type} {session : Session α} {r : Registry} (hasks : session.Asks locator inForce P r)
    (hr : r.Stands locator inForce) :
    ∃ turns a r', session.Runs locator r turns a r' := by
  induction session generalizing r with
  | done value => exact ⟨[], value, r, .done value r⟩
  | require name next ih =>
      cases hpublished : r.published? name with
      | some grammar =>
          have hnext := hasks.2 _ _ _ (.published hpublished (.done _ _))
          obtain ⟨turns, a, r', hrest⟩ := ih _ hnext hr
          exact ⟨_, a, r', .published hpublished hrest⟩
      | none =>
          have hlocated : r.locator.isSome = true := by rw [hr.locator_eq]; rfl
          have hasked : (r.noteAsked (r.canonical name)).Stands locator inForce :=
            ⟨hr.locator_eq, hr.inForce⟩
          obtain ⟨talk, given, between, hbuild⟩ := hbuilds r name hr hasks.1
          have hbetween := hbuild.stands hranked (hranked _ _ hasked) hasked
          have hnext := hasks.2 _ _ _ (.located hpublished hlocated hbuild (.done _ _))
          obtain ⟨turns, a, r', hrest⟩ := ih _ hnext (hbetween.settle _ given)
          exact ⟨_, a, r', .located hpublished hlocated hbuild hrest⟩
  | register grammar next ih =>
      obtain ⟨turns, a, r', hrest⟩ := ih hasks ⟨hr.locator_eq, hr.inForce⟩
      exact ⟨turns, a, r', .register hrest⟩
  | addSynonym synonym target next ih =>
      obtain ⟨turns, a, r', hrest⟩ := ih hasks.2 ⟨hr.locator_eq, hasks.1⟩
      exact ⟨_, a, r', .addSynonym hrest⟩
  | inspect next ih =>
      obtain ⟨turns, a, r', hrest⟩ := ih r.store hasks hr
      exact ⟨turns, a, r', .inspect hrest⟩
  | emit event next ih =>
      obtain ⟨turns, a, r', hrest⟩ := ih hasks ⟨hr.locator_eq, hr.inForce⟩
      exact ⟨turns, a, r', .emit hrest⟩

/-- By induction on the rank of what is built. -/
theorem exists_runs_grammar [Preorder ι] [WellFoundedLT ι] (hranked : locator.Ranked rank inForce)
    (name : String) {r : Registry} (hr : r.Stands locator inForce) :
    ∃ talk given r', (locator.grammar name).Runs locator r talk given r' := by
  induction hrank : rank name using WellFoundedLT.induction generalizing name r with
  | _ bound ih =>
      subst hrank
      exact exists_runs_of_builds hranked
        (fun r base hr hbase => ih _ hbase _ ⟨hr.locator_eq, hr.inForce⟩ rfl)
        (hranked name r hr) hr

end Session

/-- The locator is asked for a grammar, or answers. -/
inductive Turn.About (name : String) : Turn → Prop
  | asked : About name (.asked name)
  | answered (given : Option (Except GrammarError Grammar)) : About name (.answered name given)

/-- If one turn gives a grammar, the other is not about it any more. -/
def Turn.Spares (earlier later : Turn) : Prop :=
  ∀ name grammar, earlier = .answered name (some (.ok grammar)) → ¬ later.About name

/-- What some turns from one registry to another mean for the locator: it is involved only with
names as `of` says that have not been published, and no longer once it has given a grammar. -/
structure Accounts (of : String → Prop) (r : Registry) (turns : List Turn) (r' : Registry) :
    Prop where
  grows : r.Grows r'
  about : ∀ turn ∈ turns, ∀ name, turn.About name → of name ∧ r.store.find? name = none
  given : ∀ name grammar, .answered name (some (.ok grammar)) ∈ turns →
    (r'.store.find? name).isSome = true
  once : turns.Pairwise Turn.Spares

namespace Accounts

variable {of of' : String → Prop} {r r' r'' : Registry} {turns later : List Turn}

theorem nil (hgrows : r.Grows r') : Accounts of r [] r' where
  grows := hgrows
  about := by simp
  given := by simp
  once := .nil

theorem single {turn : Turn} (hgrows : r.Grows r')
    (habout : ∀ name, turn.About name → of name ∧ r.store.find? name = none)
    (hgiven : ∀ name grammar, turn = .answered name (some (.ok grammar)) →
      (r'.store.find? name).isSome = true) : Accounts of r [turn] r' where
  grows := hgrows
  about := by simpa using habout
  given name grammar hmem := hgiven name grammar (List.mem_singleton.mp hmem).symm
  once := List.pairwise_singleton _ _

/-- A turn in which the locator is not involved. -/
theorem aside {turn : Turn} (hgrows : r.Grows r') (habout : ∀ name, ¬ turn.About name) :
    Accounts of r [turn] r' :=
  .single hgrows (fun name h => absurd h (habout name))
    (fun name _ heq => absurd (heq ▸ .answered _) (habout name))

/-- What has been given by the first turns is published before the later ones, and so these are not
about it. -/
theorem append (h : Accounts of r turns r') (h' : Accounts of r' later r'') :
    Accounts of r (turns ++ later) r'' where
  grows := h.grows.trans h'.grows
  about turn hturn name habout := by
    rcases List.mem_append.mp hturn with hturn | hturn
    · exact h.about turn hturn name habout
    · obtain ⟨hof, hmissing⟩ := h'.about turn hturn name habout
      refine ⟨hof, Option.not_isSome_iff_eq_none.mp fun hsome => ?_⟩
      simpa [hmissing] using h.grows name hsome
  given name grammar hmem := by
    rcases List.mem_append.mp hmem with hmem | hmem
    · exact h'.grows name (h.given name grammar hmem)
    · exact h'.given name grammar hmem
  once := by
    refine List.pairwise_append.mpr ⟨h.once, h'.once, ?_⟩
    rintro _ hearlier turn hturn name grammar rfl habout
    have hmissing := (h'.about turn hturn name habout).2
    simpa [hmissing] using h.given name grammar hearlier

/-- A locator that talks about other names only before it answers gives the grammar once. The name
may have been published in the meantime, by the locator itself. -/
theorem exchange {name : String} {given : Option (Except GrammarError Grammar)}
    (h : Accounts of (r.noteAsked name) turns r') (hof : of' name) (hother : ¬ of name)
    (hmono : ∀ other, of other → of' other) (hmissing : r.store.find? name = none) :
    Accounts of' r (Turn.exchange name turns given) (Locator.settle name given r').2 := by
  refine ⟨?_, ?_, ?_, ?_⟩
  · have hgrows : r.Grows r' := h.grows
    exact hgrows.trans (Registry.grows_settle name given r')
  · intro turn hturn other habout
    simp only [Turn.exchange, List.mem_cons, List.mem_append, List.not_mem_nil, or_false] at hturn
    rcases hturn with rfl | hturn | rfl
    · cases habout
      exact ⟨hof, hmissing⟩
    · exact (h.about turn hturn other habout).imp_left (hmono other)
    · cases habout
      exact ⟨hof, hmissing⟩
  · intro other grammar hmem
    simp only [Turn.exchange, List.mem_cons, List.mem_append, List.not_mem_nil, or_false,
      reduceCtorEq, false_or, Turn.answered.injEq] at hmem
    rcases hmem with hmem | ⟨rfl, rfl⟩
    · exact Registry.grows_settle name given r' _ (h.given other grammar hmem)
    · exact Registry.isSome_find?_settle other grammar r'
  · refine List.pairwise_cons.mpr ⟨?_, List.pairwise_append.mpr ⟨h.once, ?_, ?_⟩⟩
    · rintro turn - other grammar ⟨⟩
    · exact List.pairwise_singleton _ _
    · rintro _ hearlier turn hturn other grammar rfl habout
      obtain rfl := List.mem_singleton.mp hturn
      cases habout
      exact hother (h.about _ hearlier _ (.answered _)).1

end Accounts

namespace Session

variable {ι : Type} {locator : Locator} {rank : String → ι} {inForce : Table String → Prop}

/-- A session that asks for names as `P` says involves the locator only with names of their rank or
a lower one. -/
theorem Runs.accounts [Preorder ι] (hranked : locator.Ranked rank inForce) {α : Type}
    {session : Session α} {r r' : Registry} {turns : List Turn} {a : α}
    (h : session.Runs locator r turns a r') {P : Registry → String → Prop} {of : String → Prop}
    (hof : ∀ r base, P r base → ∀ name, rank name ≤ rank (r.canonical base) → of name)
    (hasks : session.Asks locator inForce P r) (hr : r.Stands locator inForce) :
    Accounts of r turns r' := by
  induction h generalizing P of with
  | done a r => exact .nil (.refl r)
  | @published _ name _ r _ grammar _ _ found _ ih =>
      have hrest := ih hof (hasks.2 _ _ _ (.published found (.done _ _))) hr
      have hreturned : Accounts of r [.returned name [] (.ok grammar)] r :=
        .aside (.refl r) (by rintro _ ⟨⟩)
      exact (Accounts.aside (.refl r) (by rintro _ ⟨⟩)).append (hreturned.append hrest)
  | unlocated _ unlocated => simp [hr.locator_eq] at unlocated
  | @located _ name _ r between r' talk _ given _ missing located build _ ihbuild ih =>
      have hasked : (r.noteAsked (r.canonical name)).Stands locator inForce :=
        ⟨hr.locator_eq, hr.inForce⟩
      have hbuild := hranked (r.canonical name) _ hasked
      have htalk : Accounts (rank · < rank (r.canonical name)) (r.noteAsked (r.canonical name)) talk
          between :=
        ihbuild (fun r base hbase other hle => hle.trans_lt hbase) hbuild hasked
      have hexchange : Accounts of r (Turn.exchange (r.canonical name) talk given)
          (Locator.settle (r.canonical name) given between).2 :=
        htalk.exchange (hof r name hasks.1 _ le_rfl) (lt_irrefl _)
          (fun other hlt => hof r name hasks.1 other hlt.le)
          (Registry.published?_eq_none_iff.mp missing).2
      have hrest := ih hof (hasks.2 _ _ _ (.located missing located build (.done _ _)))
        ((build.stands hranked hbuild hasked).settle _ _)
      have hreturned : Accounts of (Locator.settle (r.canonical name) given between).2
          [.returned name (Turn.exchange (r.canonical name) talk given)
            (Locator.settle (r.canonical name) given between).1]
          (Locator.settle (r.canonical name) given between).2 :=
        .aside (.refl _) (by rintro _ ⟨⟩)
      exact (Accounts.aside (.refl r) (by rintro _ ⟨⟩)).append
        (hexchange.append (hreturned.append hrest))
  | register _ ih =>
      exact (Accounts.nil (Registry.grows_register _ _)).append
        (ih hof hasks ⟨hr.locator_eq, hr.inForce⟩)
  | @addSynonym _ synonym target _ r _ _ _ _ ih =>
      have hrenamed : Accounts of r [.renamed synonym] (r.addSynonym synonym target) :=
        .aside (.refl r) (by rintro _ ⟨⟩)
      exact hrenamed.append (ih hof hasks.2 ⟨hr.locator_eq, hasks.1⟩)
  | inspect _ ih => exact ih hof hasks hr
  | @emit _ event _ r _ _ _ _ ih =>
      have hemitted : Accounts of r [] (r.emit event) := .nil (.refl r)
      exact hemitted.append (ih hof hasks ⟨hr.locator_eq, hr.inForce⟩)

end Session

namespace Registry

variable {ι : Type} {locator : Locator} {rank : String → ι} {inForce : Table String → Prop}

/-- All requests come to an end, and to the same one within any depth that is great enough. Once the
locator has given a grammar it is not asked for it again. Once a request has been answered with a
grammar, so are all later ones for its name, at once, unless a synonym is added for it. -/
theorem loads_once [Preorder ι] [WellFoundedLT ι] {α : Type} {session : Session α} {r : Registry}
    (hranked : locator.Ranked rank inForce) (hr : r.Stands locator inForce)
    (hasks : session.Asks locator inForce (fun _ _ => True) r) :
    (∃ depth a r', ∀ deeper, depth ≤ deeper →
      session.runWith (locator.load deeper) r = some (a, r')) ∧
    ∀ depth a r', session.runWith (locator.load depth) r = some (a, r') →
      (∃ turns, session.Runs locator r turns a r') ∧
      ∀ turns, session.Runs locator r turns a r' →
        r'.askedNames = r.askedNames ++ turns.filterMap Turn.asked? ∧
        turns.Pairwise Turn.Spares ∧
        ∀ name during grammar before between after,
          turns = before ++ .returned name during (.ok grammar) :: between ++
            .called name :: after →
          .renamed name ∉ during → .renamed name ∉ between →
          ∃ grammar' rest, after = .returned name [] (.ok grammar') :: rest := by
  refine ⟨?_, fun depth a r' h => ⟨Session.runs_of_runWith h, fun turns hruns => ⟨?_, ?_, ?_⟩⟩⟩
  · obtain ⟨turns, a, r', hruns⟩ := Session.exists_runs_of_builds hranked
      (fun r name hr _ => Session.exists_runs_grammar hranked _ ⟨hr.locator_eq, hr.inForce⟩)
      hasks hr
    obtain ⟨depth, hdepth⟩ := hruns.exists_depth
    exact ⟨depth, a, r', hdepth⟩
  · simp [Registry.askedNames, hruns.asked_eq]
  · have haccounts : Accounts (fun _ => True) r turns r' :=
      hruns.accounts hranked (fun _ _ _ _ _ => trivial) hasks hr
    exact haccounts.once
  · intro name during grammar before between after hturns hduring hbetween
    rw [List.append_assoc, List.cons_append] at hturns
    exact (hruns.holds.returned name during grammar before _ hturns hduring).at_once between after
      rfl hbetween

/-- A locator for a grammar and for one that is derived from it, under another name that it has for
the first. -/
def layered : Locator where
  grammar name :=
    if name = "derived" then
      .register (.empty "helper") (some <$> (Build.extend "b" "derived" []).run)
    else if name = "base" then .done (some (.ok (.empty "base")))
    else .done none
  languages := ["derived", "base"]
  synonymOf name := if name = "b" then some "base" else none
  depth := 2

/-- As long as its other name is not used for what is derived. -/
theorem ranked_layered :
    layered.Ranked (fun name => if name = "derived" then 1 else 0)
      (fun synonyms => synonyms.find? "b" ≠ some "derived") := by
  intro name r hr
  by_cases hderived : name = "derived"
  · subst hderived
    have hcanonical : (r.register (.empty "helper")).canonical "b" ≠ "derived" := by
      have hlocator : (r.register (.empty "helper")).locator = some layered := hr.locator_eq
      have hsynonym : (r.register (.empty "helper")).store.synonyms.find? "b" ≠ some "derived" :=
        hr.inForce
      unfold Registry.canonical
      split
      next target h =>
        rintro rfl
        exact hsynonym h
      next => simp [hlocator, layered]
    refine ⟨by simp [hcanonical], fun turns answer r' _ => ?_⟩
    rcases answer with e | base
    · trivial
    · trivial
  · by_cases hbase : name = "base"
    · subst hbase
      trivial
    · have hunknown : layered.grammar name = .done none := by
        simp only [layered, hderived, hbase, if_false]
      rw [hunknown]
      trivial

theorem loads_once_layered :
    let session : Session (Except GrammarError Grammar) :=
      .addSynonym "d" "derived" (.require "d" fun _ => .require "derived" fun _ =>
        .require "d" .done)
    ∃ answer r' turns,
      session.runWith (layered.load 2) (withLocator layered) = some (answer, r') ∧
      answer.toOption.map (·.name) = some "derived" ∧ r'.askedNames = ["derived", "base"] ∧
      session.Runs layered (withLocator layered) turns answer r' ∧ turns.Pairwise Turn.Spares := by
  intro session
  have hasks : session.Asks layered (fun synonyms => synonyms.find? "b" ≠ some "derived")
      (fun _ _ => True) (withLocator layered) :=
    ⟨by decide, trivial, fun _ _ _ _ => ⟨trivial, fun _ _ _ _ => ⟨trivial, fun _ _ _ _ => trivial⟩⟩⟩
  obtain ⟨-, hends⟩ := loads_once ranked_layered ⟨rfl, by decide⟩ hasks
  obtain ⟨⟨turns, hruns⟩, honce⟩ := hends 2 _ _ rfl
  exact ⟨_, _, turns, rfl, by decide, by decide, hruns, (honce turns hruns).2.1⟩

end Registry

end Highlight
