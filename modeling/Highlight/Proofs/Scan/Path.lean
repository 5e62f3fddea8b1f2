import Highlight.Proofs.Scan.Hits
import Highlight.Scan.Steps

/-!
The way of a scan through its text. When all hits lie in the text, a scan does not fail, and its
steps follow one another from the start of the text to the end (`Scan.exists_run`).
-/

namespace Highlight

/-- A hit starts at `c`, leaves text for a token and ends at `d`. -/
structure Hit.Spans (hit : Hit) (c d : Cursor) : Prop where
  start : hit.start = c.offset
  emits : hit.contextEnd < hit.stop
  le : c ≤ d
  stop : d.offset = hit.stop
  contextEnd : Text.Boundary c.text hit.contextEnd

namespace Hit

theorem Spans.exists_readTo? {hit : Hit} {c d : Cursor} (h : hit.Spans c d) :
    ∃ context e token, c.readTo? hit.contextEnd = some (context, e) ∧
      e.readTo? hit.stop = some (token, d) := by
  have hstart : c.offset ≤ hit.contextEnd := h.start ▸ hit.start_le_contextEnd
  obtain ⟨context, e, hcontext⟩ := Cursor.exists_readTo?_iff.mpr ⟨hstart, h.contextEnd⟩
  have htext : e.text = d.text :=
    (Cursor.text_eq_of_le (Cursor.le_of_readTo? hcontext)).trans (Cursor.text_eq_of_le h.le).symm
  have hoffset : e.offset = hit.contextEnd := Cursor.offset_of_readTo? hcontext
  have hle : e ≤ d := by
    apply Cursor.le_of_text_eq htext
    rw [hoffset, h.stop]
    exact Nat.le_of_lt h.emits
  obtain ⟨token, hafter, hbefore⟩ := hle
  exact ⟨context, e, token, hcontext, Cursor.readTo?_eq_some_iff.mpr ⟨hafter, hbefore, h.stop⟩⟩

theorem Fits.spans_of_readTo? {hit : Hit} {c d : Cursor} {front : List Char}
    (h : hit.Fits c.text) (hstart : hit.start = c.offset) (hemits : hit.contextEnd < hit.stop)
    (hread : c.readTo? hit.stop = some (front, d)) : hit.Spans c d :=
  ⟨hstart, hemits, Cursor.le_of_readTo? hread, Cursor.offset_of_readTo? hread, h.contextEnd⟩

end Hit

/-- Steps that follow one another from one place to another. -/
inductive Path (rules : List Rule) : Cursor → List Step → Cursor → Prop
  | nil (c : Cursor) : Path rules c [] c
  | skip {c d e : Cursor} {char : Char} {steps : List Step} (next : c.next? = some (char, d))
      (rest : Path rules d steps e) : Path rules c (.skip d.offset :: steps) e
  | take {c d e : Cursor} {rule : Rule} {hit : Hit} {steps : List Step} (mem : rule ∈ rules)
      (spans : hit.Spans c d) (rest : Path rules d steps e) :
      Path rules c (.take rule hit :: steps) e

namespace Path

variable {rules : List Rule} {c d e : Cursor} {steps steps' : List Step}

theorem append (h : Path rules c steps d) (h' : Path rules d steps' e) :
    Path rules c (steps ++ steps') e := by
  induction h with
  | nil => exact h'
  | skip hnext _ ih => exact .skip hnext (ih h')
  | take hmem hspans _ ih => exact .take hmem hspans (ih h')

theorem le (h : Path rules c steps d) : c ≤ d := by
  induction h with
  | nil c => exact Cursor.le_refl c
  | skip hnext _ ih => exact Cursor.le_trans (Cursor.le_of_next? hnext) ih
  | take _ hspans _ ih => exact Cursor.le_trans hspans.le ih

theorem mono {others : List Rule} (hsubset : ∀ rule ∈ rules, rule ∈ others)
    (h : Path rules c steps d) : Path others c steps d := by
  induction h with
  | nil c => exact .nil c
  | skip hnext _ ih => exact .skip hnext ih
  | take hmem hspans _ ih => exact .take (hsubset _ hmem) hspans ih

end Path

/-- All hits of a rule lie in the text from the place of the search on. -/
def Rule.Sound (rule : Rule) : Prop :=
  ∀ c hit, rule.find c = some hit → c.offset ≤ hit.start ∧ hit.Fits c.text

namespace Lane

/-- What a lane may find, and what it remembers, lies in a text. -/
structure Fits (text : List Char) (lane : Lane) : Prop where
  sound : lane.rule.Sound
  slot : ∀ hit, lane.slot = .next hit → hit.Fits text

theorem fits_ofRule {rule : Rule} (h : rule.Sound) (text : List Char) :
    (ofRule rule).Fits text :=
  ⟨h, by simp [ofRule]⟩

@[simp] theorem rule_refresh (lane : Lane) (c : Cursor) : (lane.refresh c).rule = lane.rule := by
  unfold refresh
  split
  · rfl
  · split <;> rfl
  · rfl

theorem map_rule_ofRule (rules : List Rule) : (rules.map ofRule).map (·.rule) = rules := by
  simp [Function.comp_def, ofRule]

theorem fits_of_mem_ofRule {rules : List Rule} (h : ∀ rule ∈ rules, rule.Sound)
    (text : List Char) : ∀ lane ∈ rules.map ofRule, lane.Fits text := by
  intro lane hmem
  obtain ⟨rule, hrule, rfl⟩ := List.mem_map.mp hmem
  exact fits_ofRule (h rule hrule) text

theorem Fits.search {lane : Lane} {c : Cursor} (h : lane.Fits c.text) :
    (lane.search c).Fits c.text := by
  refine ⟨h.sound, ?_⟩
  intro hit hslot
  simp only [Lane.search] at hslot
  split at hslot
  next found hfind =>
    cases hslot
    exact (h.sound c _ hfind).2
  next => simp at hslot

theorem Fits.refresh {lane : Lane} {c : Cursor} (h : lane.Fits c.text) :
    (lane.refresh c).Fits c.text := by
  unfold Lane.refresh
  split
  · exact h
  · split
    · exact h
    · exact h.search
  · exact h.search

theorem slot_of_hitAt? {lane : Lane} {c : Cursor} {hit : Hit} (h : lane.hitAt? c = some hit) :
    lane.slot = .next hit := by
  unfold hitAt? at h
  split at h
  next found hslot =>
    split at h
    · cases h
      exact hslot
    · simp at h
  next => simp at h

/-- A lane that is asked takes hits one right behind the other. -/
theorem exists_ask {lane : Lane} {c : Cursor} (h : lane.Fits c.text) :
    ∃ answer, lane.ask c = .ok answer ∧ answer.lane.rule = lane.rule ∧
      answer.lane.Fits c.text ∧
      Path [lane.rule] c (answer.hits.map (.take lane.rule)) answer.place := by
  fun_induction ask lane c with
  | case1 lane c lane' hnone =>
      exact ⟨_, rfl, rule_refresh lane c, h.refresh, .nil c⟩
  | case2 lane c lane' hit hhit hread =>
      have hfits := h.refresh.slot hit (slot_of_hitAt? hhit)
      obtain ⟨hstart, hemits⟩ := hitAt?_start hhit
      have hle : c.offset ≤ hit.stop := by
        have := hit.start_le_contextEnd
        omega
      obtain ⟨front, d, hsome⟩ := Cursor.exists_readTo?_iff.mpr ⟨hle, hfits.stop⟩
      simp [hread] at hsome
  | case3 lane c lane' hit hhit front d hread hglobal ih =>
      have hfits := h.refresh.slot hit (slot_of_hitAt? hhit)
      obtain ⟨hstart, hemits⟩ := hitAt?_start hhit
      have hspans := hfits.spans_of_readTo? hstart hemits hread
      have htext : d.text = c.text := Cursor.text_eq_of_le hspans.le
      obtain ⟨answer, hask, hrule, hlane, hpath⟩ := ih (htext ▸ h.refresh)
      rw [rule_refresh] at hrule hpath
      refine ⟨{ answer with hits := hit :: answer.hits }, ?_, hrule, htext ▸ hlane, ?_⟩
      · simp only [hask]
        rfl
      · exact .take List.mem_cons_self hspans hpath
  | case4 lane c lane' hit hhit front d hread hglobal =>
      have hfits := h.refresh.slot hit (slot_of_hitAt? hhit)
      obtain ⟨hstart, hemits⟩ := hitAt?_start hhit
      have hspans := hfits.spans_of_readTo? hstart hemits hread
      exact ⟨_, rfl, rule_refresh lane c, h.refresh, .take List.mem_cons_self hspans (.nil d)⟩

end Lane

namespace Scan

/-- Asking lanes in order fails nowhere, and leads on if a lane takes hits. -/
theorem exists_askAll {c : Cursor} {lanes : List Lane} (h : ∀ lane ∈ lanes, lane.Fits c.text) :
    ∃ lanes' taken, askAll c lanes = .ok (lanes', taken) ∧
      lanes'.map (·.rule) = lanes.map (·.rule) ∧ (∀ lane ∈ lanes', lane.Fits c.text) ∧
      ∀ rule answer, taken = some (rule, answer) →
        Path (lanes.map (·.rule)) c (answer.hits.map (.take rule)) answer.place := by
  induction lanes with
  | nil => exact ⟨[], none, rfl, rfl, by simp, by simp⟩
  | cons lane lanes ih =>
      obtain ⟨hlane, hlanes⟩ := List.forall_mem_cons.mp h
      obtain ⟨first, hask, hrule, hfirst, hpath⟩ := Lane.exists_ask hlane
      cases hhits : first.hits with
      | nil =>
          obtain ⟨rest, taken, haskAll, hrules, hrest, htaken⟩ := ih hlanes
          refine ⟨first.lane :: rest, taken, ?_, by simp [hrule, hrules], ?_, ?_⟩
          · simp [askAll, hask, hhits, haskAll, bind, Except.bind, pure, Except.pure]
          · exact List.forall_mem_cons.mpr ⟨hfirst, hrest⟩
          · intro rule answer hsome
            exact (htaken rule answer hsome).mono (by simp +contextual)
      | cons hit hits =>
          refine ⟨first.lane :: lanes, some (lane.rule, first), ?_, by simp [hrule], ?_, ?_⟩
          · simp [askAll, hask, hhits, bind, Except.bind, pure, Except.pure]
          · exact List.forall_mem_cons.mpr ⟨hfirst, hlanes⟩
          · rintro rule answer ⟨⟩
            exact hpath.mono (by simp)

/-- A scan comes to the end of its text, and its steps lead there. -/
theorem exists_run {lanes : List Lane} {c : Cursor} (h : ∀ lane ∈ lanes, lane.Fits c.text) :
    ∃ steps lanes' d, run lanes c = .ok (steps, lanes') ∧
      Path (lanes.map (·.rule)) c steps d ∧ d.after = [] := by
  fun_induction run lanes c with
  | case1 lanes c hnext => exact ⟨[], lanes, c, rfl, .nil c, Cursor.next?_eq_none_iff.mp hnext⟩
  | case2 lanes c char d hnext fault hask =>
      obtain ⟨lanes', taken, hok, -⟩ := exists_askAll h
      simp [hask] at hok
  | case3 lanes c char d hnext lanes' rule answer hask ih =>
      obtain ⟨lanes'', taken, hok, hrules, hfits, hpath⟩ := exists_askAll h
      rw [hask] at hok
      cases hok
      have hfirst := hpath rule answer rfl
      rw [Cursor.text_eq_of_le hfirst.le] at ih
      obtain ⟨steps, lanes'', e, hrun, hrest, hend⟩ := ih hfits
      rw [hrules] at hrest
      exact ⟨_, _, e, by simp [hrun]; rfl, hfirst.append hrest, hend⟩
  | case4 lanes c char d hnext lanes' hask ih =>
      obtain ⟨lanes'', taken, hok, hrules, hfits, -⟩ := exists_askAll h
      rw [hask] at hok
      cases hok
      rw [Cursor.text_eq_of_le (Cursor.le_of_next? hnext)] at ih
      obtain ⟨steps, lanes'', e, hrun, hrest, hend⟩ := ih hfits
      rw [hrules] at hrest
      exact ⟨_, _, e, by simp [hrun]; rfl, .skip hnext hrest, hend⟩

theorem exists_steps {rules : List Rule} (h : ∀ rule ∈ rules, rule.Sound) (text : List Char) :
    ∃ steps d, Scan.steps rules text = .ok steps ∧ Path rules (.start text) steps d ∧
      d.after = [] := by
  obtain ⟨steps, lanes, d, hrun, hpath, hend⟩ := exists_run (Lane.fits_of_mem_ofRule h _)
  rw [Lane.map_rule_ofRule] at hpath
  exact ⟨steps, d, by simp [Scan.steps, hrun, Except.map], hpath, hend⟩

end Scan

end Highlight
