import Highlight.Proofs.Scan.Asking
import Mathlib.Data.List.Forall2

/-!
Two scans of one text in lockstep. Their rules may differ in what does not bear on the search for
hits, and either scan may have further rules that never have a hit to take. Then both take the same
hits at the same places (`Scan.run_lockstep`, `Scan.steps_lockstep`).
-/

namespace Highlight

/-- Rules that find the same hits and repeat them alike. -/
structure Rule.FindsAs (rule other : Rule) : Prop where
  find : rule.find = other.find
  global : rule.global = other.global

/-- No search of a text finds a hit that leaves text for a token. -/
def Rule.Silent (text : List Char) (rule : Rule) : Prop :=
  ∀ c hit, c.text = text → rule.find c = some hit → hit.emits = false

/-- Steps of the same kind, by rules in a given relation. -/
inductive Step.Twins (R : Rule → Rule → Prop) : Step → Step → Prop
  | skip (stop : Nat) : Step.Twins R (.skip stop) (.skip stop)
  | take {rule other : Rule} (hit : Hit) (rules : R rule other) :
      Step.Twins R (.take rule hit) (.take other hit)

namespace Lane

/-- A lane of a rule that never has a hit to take, which remembers no such hit either. -/
structure Silent (text : List Char) (lane : Lane) : Prop where
  rule : lane.rule.Silent text
  slot : ∀ hit, lane.slot = .next hit → hit.emits = false

/-- Lanes of two rules in a given relation that remember the same. -/
structure Twins (R : Rule → Rule → Prop) (lane other : Lane) : Prop where
  rule : R lane.rule other.rule
  slot : lane.slot = other.slot

theorem Silent.refresh {lane : Lane} {c : Cursor} (h : lane.Silent c.text) :
    (lane.refresh c).Silent c.text := by
  refine ⟨by rw [rule_refresh]; exact h.rule, ?_⟩
  have hsearch : ∀ hit, (lane.search c).slot = .next hit → hit.emits = false := by
    intro hit hslot
    simp only [search] at hslot
    split at hslot
    next found hfind =>
      cases hslot
      exact h.rule c _ rfl hfind
    next => cases hslot
  unfold Lane.refresh
  split
  next => exact h.slot
  next found hslot =>
    split
    next => exact h.slot
    next => exact hsearch
  next => exact hsearch

theorem Silent.ask {lane : Lane} {c : Cursor} (h : lane.Silent c.text) :
    lane.ask c = .ok ⟨lane.refresh c, [], c⟩ := by
  apply ask_of_hitAt?_eq_none
  cases hhit : (lane.refresh c).hitAt? c with
  | none => rfl
  | some hit =>
      have hemits := (hitAt?_start hhit).2
      have hsilent := h.refresh.slot hit (slot_of_hitAt? hhit)
      rw [Hit.emits_iff.mpr hemits] at hsilent
      cases hsilent

variable {R : Rule → Rule → Prop} {lane other : Lane} {c : Cursor}

theorem Twins.refresh (hR : ∀ rule other, R rule other → rule.FindsAs other)
    (h : lane.Twins R other) : (lane.refresh c).Twins R (other.refresh c) := by
  refine ⟨by rw [rule_refresh, rule_refresh]; exact h.rule, ?_⟩
  exact slot_refresh_congr (hR _ _ h.rule).find h.slot c

theorem Twins.hitAt?_eq (h : lane.Twins R other) : lane.hitAt? c = other.hitAt? c := by
  rw [hitAt?, hitAt?, h.slot]

/-- Twins that are asked take the same hits and stay twins. -/
theorem Twins.ask (hR : ∀ rule other, R rule other → rule.FindsAs other)
    (h : lane.Twins R other) {answer : Answer} (hask : lane.ask c = .ok answer) :
    ∃ answer', other.ask c = .ok answer' ∧ answer'.hits = answer.hits ∧
      answer'.place = answer.place ∧ answer.lane.Twins R answer'.lane := by
  fun_induction Lane.ask lane c generalizing other answer with
  | case1 lane c lane' =>
      rename_i hnone
      cases hask
      have hrefresh : lane'.Twins R (other.refresh c) := h.refresh hR
      rw [hrefresh.hitAt?_eq] at hnone
      exact ⟨_, ask_of_hitAt?_eq_none hnone, rfl, rfl, hrefresh⟩
  | case2 => cases hask
  | case3 lane c lane' hit hhit front d hread hglobal =>
      rename_i ih
      have hrefresh : lane'.Twins R (other.refresh c) := h.refresh hR
      obtain ⟨inner, hinner, heq⟩ := exists_of_bind_eq_ok hask
      cases heq
      obtain ⟨inner', hinner', hhits, hplace, htwins⟩ := ih hrefresh hinner
      rw [hrefresh.hitAt?_eq] at hhit
      rw [rule_refresh, (hR _ _ h.rule).global] at hglobal
      refine ⟨{ inner' with hits := hit :: inner'.hits }, ?_, by simp [hhits], hplace, htwins⟩
      rw [ask_of_hitAt?_eq_some hhit hread, if_pos hglobal, hinner']
      rfl
  | case4 lane c lane' hit hhit front d hread =>
      rename_i hglobal
      cases hask
      have hrefresh : lane'.Twins R (other.refresh c) := h.refresh hR
      rw [hrefresh.hitAt?_eq] at hhit
      rw [rule_refresh, (hR _ _ h.rule).global] at hglobal
      refine ⟨⟨other.refresh c, [hit], d⟩, ?_, rfl, rfl, hrefresh⟩
      rw [ask_of_hitAt?_eq_some hhit hread, if_neg hglobal]

end Lane

namespace Scan

/-- Lanes of two scans of a text, twins in order, and between them silent ones on either side. -/
inductive Lockstep (R : Rule → Rule → Prop) (text : List Char) : List Lane → List Lane → Prop
  | nil : Lockstep R text [] []
  | both {lane other : Lane} {lanes others : List Lane} (twins : lane.Twins R other)
      (rest : Lockstep R text lanes others) : Lockstep R text (lane :: lanes) (other :: others)
  | left {lane : Lane} {lanes others : List Lane} (silent : lane.Silent text)
      (rest : Lockstep R text lanes others) : Lockstep R text (lane :: lanes) others
  | right {other : Lane} {lanes others : List Lane} (silent : other.Silent text)
      (rest : Lockstep R text lanes others) : Lockstep R text lanes (other :: others)

variable {R : Rule → Rule → Prop} {lanes others lanes' : List Lane} {c : Cursor}

/-- Asking lanes in lockstep at a place leads to the same hits. -/
theorem askAll_lockstep (hR : ∀ rule other, R rule other → rule.FindsAs other)
    (h : Lockstep R c.text lanes others) {taken : Option (Rule × Lane.Answer)}
    (hask : askAll c lanes = .ok (lanes', taken)) :
    ∃ others' taken', askAll c others = .ok (others', taken') ∧
      Lockstep R c.text lanes' others' ∧
      Option.Rel (fun first second => R first.1 second.1 ∧ second.2.hits = first.2.hits ∧
        second.2.place = first.2.place) taken taken' := by
  induction h generalizing lanes' taken with
  | nil =>
      cases hask
      exact ⟨[], none, rfl, .nil, .none⟩
  | @both lane other lanes others htwins hrest ih =>
      rw [askAll] at hask
      obtain ⟨answer, hanswer, hask⟩ := exists_of_bind_eq_ok hask
      obtain ⟨answer', hanswer', hhits, hplace, htwins'⟩ := htwins.ask hR hanswer
      split at hask
      next hnil =>
        obtain ⟨⟨rest, taken'⟩, hask', heq⟩ := exists_of_bind_eq_ok hask
        cases heq
        obtain ⟨others', taken'', hothers, hlockstep, hrel⟩ := ih hask'
        rw [hnil] at hhits
        refine ⟨answer'.lane :: others', taken'', ?_, .both htwins' hlockstep, hrel⟩
        simp only [askAll, hanswer', hhits, hothers, bind, Except.bind]
        rfl
      next hit hits hcons =>
        cases hask
        have hcons' := hhits.trans hcons
        refine ⟨answer'.lane :: others, some (other.rule, answer'), ?_, .both htwins' hrest,
          .some ⟨htwins.rule, hhits, hplace⟩⟩
        simp only [askAll, hanswer', hcons', bind, Except.bind]
        rfl
  | @left lane lanes others hsilent hrest ih =>
      rw [askAll] at hask
      obtain ⟨answer, hanswer, hask⟩ := exists_of_bind_eq_ok hask
      rw [hsilent.ask] at hanswer
      cases hanswer
      obtain ⟨⟨rest, taken'⟩, hask', heq⟩ := exists_of_bind_eq_ok hask
      cases heq
      obtain ⟨others', taken'', hothers, hlockstep, hrel⟩ := ih hask'
      exact ⟨others', taken'', hothers, .left hsilent.refresh hlockstep, hrel⟩
  | @right other lanes others hsilent hrest ih =>
      obtain ⟨others', taken', hothers, hlockstep, hrel⟩ := ih hask
      refine ⟨other.refresh c :: others', taken', ?_, .right hsilent.refresh hlockstep, hrel⟩
      simp only [askAll, hsilent.ask, hothers, bind, Except.bind]
      rfl

/-- Scans in lockstep take the same steps, by rules in the relation. -/
theorem run_lockstep (hR : ∀ rule other, R rule other → rule.FindsAs other)
    (h : Lockstep R c.text lanes others) (hlanes : ∀ lane ∈ lanes, lane.Fits c.text)
    {steps : List Step} (hrun : run lanes c = .ok (steps, lanes')) :
    ∃ steps' others', run others c = .ok (steps', others') ∧
      List.Forall₂ (Step.Twins R) steps steps' := by
  -- The first scan leads: wherever it goes on, the other one has come to the same place.
  fun_induction run lanes c generalizing others steps lanes' with
  | case1 lanes c hnext =>
      cases hrun
      exact ⟨[], others, run_of_next?_eq_none hnext, .nil⟩
  | case2 => cases hrun
  | case3 lanes c char d hnext next rule answer hask ih =>
      obtain ⟨lanes'', taken, hok, -, hfits, hpath⟩ := exists_askAll hlanes
      cases hask.symm.trans hok
      have htext : answer.place.text = c.text := Cursor.text_eq_of_le (hpath rule answer rfl).le
      obtain ⟨others', taken', hothers, hlockstep, hrel⟩ := askAll_lockstep hR h hask
      obtain @⟨_, ⟨rule', answer'⟩, hrule, hhits, hplace⟩ := hrel
      obtain ⟨⟨rest, lanes''⟩, hrest, heq⟩ := exists_of_bind_eq_ok hrun
      cases heq
      obtain ⟨rest', others'', hrun', hsteps⟩ := ih (htext ▸ hlockstep) (htext ▸ hfits) hrest
      refine ⟨answer'.hits.map (.take rule') ++ rest', others'', ?_, ?_⟩
      · simp only at hplace
        rw [run_of_askAll_eq_some hnext hothers, hplace, hrun']
        rfl
      · refine List.rel_append ?_ hsteps
        simp only at hhits hrule
        rw [hhits]
        simp only [List.forall₂_map_left_iff, List.forall₂_map_right_iff]
        exact List.forall₂_same.mpr fun hit _ => .take hit hrule
  | case4 lanes c char d hnext next hask ih =>
      obtain ⟨lanes'', taken, hok, -, hfits, -⟩ := exists_askAll hlanes
      cases hask.symm.trans hok
      have htext : d.text = c.text := Cursor.text_eq_of_le (Cursor.le_of_next? hnext)
      obtain ⟨others', taken', hothers, hlockstep, hrel⟩ := askAll_lockstep hR h hask
      cases hrel
      obtain ⟨⟨rest, lanes''⟩, hrest, heq⟩ := exists_of_bind_eq_ok hrun
      cases heq
      obtain ⟨rest', others'', hrun', hsteps⟩ := ih (htext ▸ hlockstep) (htext ▸ hfits) hrest
      refine ⟨.skip d.offset :: rest', others'', ?_, .cons (.skip d.offset) hsteps⟩
      rw [run_of_askAll_eq_none hnext hothers, hrun']
      rfl

theorem steps_lockstep {rules others : List Rule} {text : List Char}
    (hR : ∀ rule other, R rule other → rule.FindsAs other) (hsound : ∀ rule ∈ rules, rule.Sound)
    (h : Lockstep R text (rules.map Lane.ofRule) (others.map Lane.ofRule)) :
    ∃ steps steps', Scan.steps rules text = .ok steps ∧ Scan.steps others text = .ok steps' ∧
      List.Forall₂ (Step.Twins R) steps steps' := by
  have hlanes := Lane.fits_of_mem_ofRule hsound (Cursor.start text).text
  obtain ⟨steps, lanes, d, hrun, -⟩ := exists_run hlanes
  rw [← Cursor.start_text text] at h
  obtain ⟨steps', others', hrun', htwins⟩ := run_lockstep hR h hlanes hrun
  exact ⟨steps, steps', by rw [Scan.steps, hrun]; rfl, by rw [Scan.steps, hrun']; rfl, htwins⟩

end Scan

end Highlight
