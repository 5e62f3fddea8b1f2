import Highlight.Proofs.Failure
import Highlight.Proofs.Scan.Path

/-!
What asking comes to. A lane without a hit at a place only refreshes what it knows, one with a hit
takes it (`Lane.ask_cases`). Asking lanes in order refreshes them up to the first one with a hit
(`Scan.askAll_cases`).
-/

namespace Highlight

namespace Lane

/-- What a lane knows after a refresh depends on what it knew and on its search. -/
theorem slot_refresh_congr {lane other : Lane} (hfind : lane.rule.find = other.rule.find)
    (hslot : lane.slot = other.slot) (c : Cursor) :
    (lane.refresh c).slot = (other.refresh c).slot := by
  have hsearch : (lane.search c).slot = (other.search c).slot := by
    simp only [search, hfind]
  unfold refresh
  rw [← hslot]
  split
  next => exact hslot
  next =>
    split
    next => exact hslot
    next => exact hsearch
  next => exact hsearch

theorem ask_of_hitAt?_eq_none {lane : Lane} {c : Cursor}
    (h : (lane.refresh c).hitAt? c = none) : lane.ask c = .ok ⟨lane.refresh c, [], c⟩ := by
  rw [ask]
  split
  next => rfl
  next hit hhit => simp [h] at hhit

theorem ask_of_hitAt?_eq_some {lane : Lane} {c d : Cursor} {hit : Hit} {front : List Char}
    (h : (lane.refresh c).hitAt? c = some hit) (hread : c.readTo? hit.stop = some (front, d)) :
    lane.ask c =
      if lane.rule.global then do
        let answer ← (lane.refresh c).ask d
        return { answer with hits := hit :: answer.hits }
      else .ok ⟨lane.refresh c, [hit], d⟩ := by
  rw [ask]
  split
  next hnone => simp [h] at hnone
  next found hfound =>
    rw [h] at hfound
    cases hfound
    split
    next hnone => simp [hread] at hnone
    next front' d' hsome =>
      rw [hread] at hsome
      cases hsome
      rw [rule_refresh]

theorem ask_cases {lane : Lane} {c : Cursor} {hit : Hit} {answer : Answer}
    (h : (lane.refresh c).hitAt? c = some hit) (hask : lane.ask c = .ok answer) :
    ∃ front d, c.readTo? hit.stop = some (front, d) ∧
      ((lane.rule.global = true ∧ ∃ inner, (lane.refresh c).ask d = .ok inner ∧
          answer = { inner with hits := hit :: inner.hits }) ∨
        (lane.rule.global = false ∧ answer = ⟨lane.refresh c, [hit], d⟩)) := by
  rw [ask] at hask
  split at hask
  next hnone => simp [hnone] at h
  next found hfound =>
    rw [h] at hfound
    cases hfound
    split at hask
    next => cases hask
    next front d hread =>
      refine ⟨front, d, hread, ?_⟩
      split at hask
      next hglobal =>
        obtain ⟨inner, hinner, heq⟩ := exists_of_bind_eq_ok hask
        cases heq
        exact .inl ⟨by simpa using hglobal, inner, hinner, rfl⟩
      next hglobal =>
        cases hask
        exact .inr ⟨by simpa using hglobal, rfl⟩

theorem hits_ne_nil_of_ask {lane : Lane} {c : Cursor} {hit : Hit} {answer : Answer}
    (h : (lane.refresh c).hitAt? c = some hit) (hask : lane.ask c = .ok answer) :
    answer.hits ≠ [] := by
  obtain ⟨-, -, -, ⟨-, inner, -, rfl⟩ | ⟨-, rfl⟩⟩ := ask_cases h hask
  · simp
  · simp

end Lane

namespace Scan

/-- Asking lanes in order, either none has a hit, or the first one with a hit takes it. -/
theorem askAll_cases {c : Cursor} {lanes lanes' : List Lane} {taken : Option (Rule × Lane.Answer)}
    (h : askAll c lanes = .ok (lanes', taken)) :
    (taken = none ∧ lanes' = lanes.map (·.refresh c) ∧
        ∀ lane ∈ lanes, (lane.refresh c).hitAt? c = none) ∨
      ∃ before lane after hit answer, lanes = before ++ lane :: after ∧
        (∀ other ∈ before, (other.refresh c).hitAt? c = none) ∧
        (lane.refresh c).hitAt? c = some hit ∧ lane.ask c = .ok answer ∧
        taken = some (lane.rule, answer) ∧
        lanes' = before.map (·.refresh c) ++ answer.lane :: after := by
  induction lanes generalizing lanes' with
  | nil =>
      cases h
      exact .inl ⟨rfl, rfl, by simp⟩
  | cons first rest ih =>
      rw [askAll] at h
      obtain ⟨answer, hask, h⟩ := exists_of_bind_eq_ok h
      cases hhit : (first.refresh c).hitAt? c with
      | none =>
          rw [Lane.ask_of_hitAt?_eq_none hhit] at hask
          cases hask
          obtain ⟨⟨rest', taken'⟩, hrest, heq⟩ := exists_of_bind_eq_ok h
          cases heq
          rcases ih hrest with ⟨rfl, rfl, hnone⟩ |
            ⟨before, lane, after, hit, answer, rfl, hnone, hhit', hask, rfl, rfl⟩
          · exact .inl ⟨rfl, rfl, List.forall_mem_cons.mpr ⟨hhit, hnone⟩⟩
          · exact .inr ⟨first :: before, lane, after, hit, answer, rfl,
              List.forall_mem_cons.mpr ⟨hhit, hnone⟩, hhit', hask, rfl, rfl⟩
      | some hit =>
          split at h
          next hnil => exact absurd hnil (Lane.hits_ne_nil_of_ask hhit hask)
          next =>
            cases h
            exact .inr ⟨[], first, rest, hit, answer, rfl, by simp, hhit, hask, rfl, rfl⟩

variable {lanes lanes' : List Lane} {c d : Cursor} {char : Char}

theorem run_of_next?_eq_none (h : c.next? = none) : run lanes c = .ok ([], lanes) := by
  rw [run]
  split
  next => rfl
  next hsome => simp [h] at hsome

theorem run_of_askAll_eq_none (hnext : c.next? = some (char, d))
    (h : askAll c lanes = .ok (lanes', none)) :
    run lanes c = do
      let (steps, lanes) ← run lanes' d
      return (.skip d.offset :: steps, lanes) := by
  rw [run]
  split
  next hnone => simp [hnext] at hnone
  next char' d' hsome =>
    rw [hnext] at hsome
    cases hsome
    split <;> simp_all

theorem run_of_askAll_eq_some {rule : Rule} {answer : Lane.Answer}
    (hnext : c.next? = some (char, d)) (h : askAll c lanes = .ok (lanes', some (rule, answer))) :
    run lanes c = do
      let (steps, lanes) ← run lanes' answer.place
      return (answer.hits.map (.take rule) ++ steps, lanes) := by
  rw [run]
  split
  next hnone => simp [hnext] at hnone
  next =>
    split
    next herror => simp [h] at herror
    next lanes'' rule' answer' hsome =>
      rw [h] at hsome
      cases hsome
      rfl
    next hnone => simp [h] at hnone

end Scan

end Highlight
