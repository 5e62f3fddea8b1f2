import Highlight.Proofs.Failure
import Highlight.Proofs.Scan.Path
import Highlight.Proofs.Scan.Plain

/-!
Memory and fresh searches. What a lane remembers agrees with a fresh search from the place that
the scan has reached, however it came there (`Lane.Current`). So the steps of a scan are those of
the scan without memory (`Scan.steps_eq_plain`).
-/

namespace Highlight

namespace Lane

/-- What a lane remembers is what a fresh search from a place would find, unless the place has
passed it. -/
def Agrees (lane : Lane) (c : Cursor) : Prop :=
  match lane.slot with
  | .unknown => True
  | .next hit => c.offset ≤ hit.start → lane.rule.find c = some hit
  | .exhausted => lane.rule.find c = none

/-- A lane with a steady search whose memory agrees with it. -/
structure Current (c : Cursor) (lane : Lane) : Prop where
  steady : Steady lane.rule.find
  agrees : lane.Agrees c

theorem current_ofRule {rule : Rule} (h : Steady rule.find) (c : Cursor) :
    (ofRule rule).Current c :=
  ⟨h, trivial⟩

/-- Going on in the text leaves the memory right: hits that the scan passes are no longer asked
for, and all others are still the first ones. -/
theorem Current.mono {lane : Lane} {c d : Cursor} (h : lane.Current c) (hle : c ≤ d) :
    lane.Current d := by
  refine ⟨h.steady, ?_⟩
  have hagrees := h.agrees
  unfold Agrees at hagrees ⊢
  split at hagrees
  next => trivial
  next hit hslot =>
    intro hstart
    have hbefore : c.offset ≤ hit.start := Nat.le_trans (Cursor.offset_le_of_le hle) hstart
    exact h.steady.eq_some_of_le hle (hagrees hbefore) hstart
  next hslot => exact h.steady.eq_none_of_le hle hagrees

/-- After a refresh a lane knows what a fresh search finds. -/
theorem slot_refresh {lane : Lane} {c : Cursor} (h : lane.Agrees c) :
    (lane.refresh c).slot =
      match lane.rule.find c with
      | some hit => .next hit
      | none => .exhausted := by
  unfold Agrees at h
  unfold refresh
  split
  next hslot =>
    rw [hslot] at h
    rw [h, hslot]
  next hit hslot =>
    rw [hslot] at h
    split
    next hstart => rw [h hstart, hslot]
    next => rfl
  next => rfl

theorem Current.refresh {lane : Lane} {c : Cursor} (h : lane.Current c) :
    (lane.refresh c).Current c := by
  have hslot := slot_refresh h.agrees
  refine ⟨by rw [rule_refresh]; exact h.steady, ?_⟩
  unfold Agrees
  rw [hslot, rule_refresh]
  cases hfind : lane.rule.find c with
  | none => rfl
  | some hit => exact fun _ => rfl

theorem hitAt?_refresh {lane : Lane} {c : Cursor} (h : lane.Agrees c) :
    Plain.hitAt? lane.rule c =
      ((lane.refresh c).hitAt? c).bind fun hit =>
        (c.readTo? hit.stop).map fun (_, d) => (hit, d) := by
  have hslot := slot_refresh h
  rw [Plain.hitAt?, Lane.hitAt?, hslot]
  cases hfind : lane.rule.find c with
  | none => rfl
  | some hit =>
      simp only
      split
      · rfl
      · rfl

/-- A lane that is asked takes the hits of its rule, and remembers what is right behind them. -/
theorem hits_of_ask {lane : Lane} {c : Cursor} {answer : Answer} (h : lane.Current c)
    (hask : lane.ask c = .ok answer) :
    Plain.hits lane.rule c = (answer.hits, answer.place) ∧ answer.lane.rule = lane.rule ∧
      c ≤ answer.place ∧ answer.lane.Current answer.place := by
  fun_induction ask lane c generalizing answer with
  | case1 lane c lane' =>
      rename_i hnone
      cases hask
      have hplain : Plain.hitAt? lane.rule c = none := by rw [hitAt?_refresh h.agrees, hnone]; rfl
      exact ⟨Plain.hits_of_hitAt?_eq_none hplain, rule_refresh lane c, Cursor.le_refl c, h.refresh⟩
  | case2 => cases hask
  | case3 lane c lane' hit hhit front d hread hglobal =>
      rename_i ih
      have hplain : Plain.hitAt? lane.rule c = some (hit, d) := by
        rw [hitAt?_refresh h.agrees, hhit]
        simp [hread]
      have hle : c ≤ d := Cursor.le_of_readTo? hread
      obtain ⟨inner, hinner, heq⟩ := exists_of_bind_eq_ok hask
      cases heq
      obtain ⟨hhits, hrule, hle', hcurrent⟩ := ih (h.refresh.mono hle) hinner
      rw [rule_refresh] at hhits hrule hglobal
      refine ⟨?_, hrule, Cursor.le_trans hle hle', hcurrent⟩
      rw [Plain.hits_of_hitAt?_eq_some hplain, if_pos hglobal, hhits]
  | case4 lane c lane' hit hhit front d hread =>
      rename_i hglobal
      cases hask
      have hplain : Plain.hitAt? lane.rule c = some (hit, d) := by
        rw [hitAt?_refresh h.agrees, hhit]
        simp [hread]
      have hle : c ≤ d := Cursor.le_of_readTo? hread
      rw [rule_refresh] at hglobal
      refine ⟨?_, rule_refresh lane c, hle, h.refresh.mono hle⟩
      rw [Plain.hits_of_hitAt?_eq_some hplain, if_neg hglobal]

end Lane

namespace Scan

/-- Asking lanes in order comes to the first rule with hits, and leaves all lanes right for the
place behind them. -/
theorem firstAt?_of_askAll {c : Cursor} {lanes lanes' : List Lane}
    {taken : Option (Rule × Lane.Answer)} (h : ∀ lane ∈ lanes, lane.Current c)
    (hask : askAll c lanes = .ok (lanes', taken)) :
    Plain.firstAt? (lanes.map (·.rule)) c =
        taken.map (fun (rule, answer) => (rule, answer.hits, answer.place)) ∧
      lanes'.map (·.rule) = lanes.map (·.rule) ∧ c ≤ taken.elim c (·.2.place) ∧
      ∀ lane ∈ lanes', lane.Current (taken.elim c (·.2.place)) := by
  induction lanes generalizing lanes' with
  | nil =>
      cases hask
      exact ⟨rfl, rfl, Cursor.le_refl c, by simp⟩
  | cons lane lanes ih =>
      obtain ⟨hlane, hlanes⟩ := List.forall_mem_cons.mp h
      rw [askAll] at hask
      obtain ⟨first, hfirst, hask⟩ := exists_of_bind_eq_ok hask
      obtain ⟨hhits, hrule, hle, hcurrent⟩ := Lane.hits_of_ask hlane hfirst
      split at hask
      next hnil =>
        obtain ⟨⟨rest, taken'⟩, hrest, heq⟩ := exists_of_bind_eq_ok hask
        cases heq
        obtain ⟨hplain, hrules, hle', hcurrent'⟩ := ih hlanes hrest
        have hplace : first.place = c := by
          rcases Lane.length_after_ask hfirst with ⟨-, hplace⟩ | ⟨hne, -⟩
          · exact hplace
          · exact absurd hnil hne
        refine ⟨?_, by simp [hrule, hrules], hle', ?_⟩
        · rw [hnil] at hhits
          rw [List.map_cons, Plain.firstAt?_cons_of_nil hhits, hplain]
        · exact List.forall_mem_cons.mpr ⟨(hplace ▸ hcurrent).mono hle', hcurrent'⟩
      next hit hits hcons =>
        cases hask
        refine ⟨?_, by simp [hrule], hle, ?_⟩
        · rw [hcons] at hhits
          rw [List.map_cons, Plain.firstAt?_cons_of_cons hhits]
          simp only [Option.map_some, hcons]
        · intro other hmem
          rcases List.mem_cons.mp hmem with rfl | hmem
          · exact hcurrent
          · exact (hlanes other hmem).mono hle

/-- The steps of a scan are those that fresh searches would lead to, as long as the lanes start
right. -/
theorem steps_of_run {lanes lanes' : List Lane} {c : Cursor} {steps : List Step}
    (h : ∀ lane ∈ lanes, lane.Current c) (hrun : run lanes c = .ok (steps, lanes')) :
    steps = Plain.steps (lanes.map (·.rule)) c := by
  fun_induction run lanes c generalizing steps lanes' with
  | case1 lanes c hnext =>
      cases hrun
      rw [Plain.steps_of_next?_eq_none hnext]
  | case2 => cases hrun
  | case3 lanes c char d hnext next rule answer hask ih =>
      obtain ⟨hfirst, hrules, -, hcurrent⟩ := firstAt?_of_askAll h hask
      obtain ⟨rest, hrest, heq⟩ := exists_of_bind_eq_ok hrun
      cases heq
      rw [Plain.steps_of_firstAt?_eq_some hnext hfirst, ih hcurrent hrest, hrules]
  | case4 lanes c char d hnext next hask ih =>
      obtain ⟨hfirst, hrules, -, hcurrent⟩ := firstAt?_of_askAll h hask
      have hle : c ≤ d := Cursor.le_of_next? hnext
      obtain ⟨rest, hrest, heq⟩ := exists_of_bind_eq_ok hrun
      cases heq
      have hcurrent' : ∀ lane ∈ next, lane.Current d := by
        intro lane hmem
        exact (hcurrent lane hmem).mono hle
      rw [Plain.steps_of_firstAt?_eq_none hnext hfirst, ih hcurrent' hrest, hrules]

theorem steps_eq_plain {rules : List Rule} (hsound : ∀ rule ∈ rules, rule.Sound)
    (hsteady : ∀ rule ∈ rules, Steady rule.find) (text : List Char) :
    Scan.steps rules text = .ok (Plain.steps rules (.start text)) := by
  obtain ⟨steps, d, hsteps, -⟩ := exists_steps hsound text
  have hcurrent : ∀ lane ∈ rules.map Lane.ofRule, lane.Current (.start text) := by
    intro lane hmem
    obtain ⟨rule, hrule, rfl⟩ := List.mem_map.mp hmem
    exact Lane.current_ofRule (hsteady rule hrule) _
  cases hrun : run (rules.map Lane.ofRule) (.start text) with
  | error fault => simp [Scan.steps, hrun, Except.map] at hsteps
  | ok found =>
      have hplain := steps_of_run hcurrent hrun
      rw [Lane.map_rule_ofRule] at hplain
      rw [Scan.steps, hrun, ← hplain]
      rfl

end Scan

end Highlight
