import Highlight.Proofs.Scan.Asking
import Highlight.Proofs.Scan.Execution

/-!
The loops of the machine and the recursion of the scan. The seats of a frame hold the lanes of the
scan at the same place, so both take the same hits.
-/

namespace Highlight

variable [Regex.Searcher]

namespace Machine

namespace Seat

variable {g : Grammar}

@[simp] theorem lane_refresh (seat : Seat g) (c : Cursor) :
    (seat.refresh c).lane = seat.lane.refresh c := rfl

@[simp] theorem pattern_refresh (seat : Seat g) (c : Cursor) :
    (seat.refresh c).pattern = seat.pattern := rfl

theorem global_eq (seat : Seat g) : seat.lane.rule.global = seat.pattern.global := by
  rw [seat.rule_eq, Pattern.rule_global]

theorem askAll_cases {c : Cursor} {seats : List (Seat g)} {lanes : List Lane}
    {taken : Option (Rule × Lane.Answer)}
    (h : Scan.askAll c (seats.map (·.lane)) = .ok (lanes, taken)) :
    (taken = none ∧ ∃ seats', askAll c seats = (seats', none) ∧ seats'.map (·.lane) = lanes) ∨
      ∃ (seats' : List (Seat g)) (i : Nat) (seat : Seat g) (hit : Hit) (answer : Lane.Answer),
        askAll c seats = (seats', some (i, seat.refresh c, hit)) ∧
        seats'[i]? = some (seat.refresh c) ∧ (seat.lane.refresh c).hitAt? c = some hit ∧
        seat.lane.ask c = .ok answer ∧ taken = some (seat.lane.rule, answer) ∧
        (seats'.map (·.lane)).set i answer.lane = lanes := by
  induction seats generalizing lanes with
  | nil =>
      cases h
      exact .inl ⟨rfl, [], rfl, rfl⟩
  | cons first rest ih =>
      rw [List.map_cons, Scan.askAll] at h
      obtain ⟨answer, hask, h⟩ := exists_of_bind_eq_ok h
      cases hhit : (first.lane.refresh c).hitAt? c with
      | none =>
          rw [Lane.ask_of_hitAt?_eq_none hhit] at hask
          cases hask
          simp only at h
          obtain ⟨⟨lanes', taken'⟩, hrest, heq⟩ := exists_of_bind_eq_ok h
          cases heq
          rcases ih hrest with ⟨rfl, seats', haskAll, rfl⟩ |
            ⟨seats', i, seat, hit, answer, haskAll, hseat, hhit', hask, rfl, rfl⟩
          · refine .inl ⟨rfl, first.refresh c :: seats', ?_, rfl⟩
            simp only [askAll, lane_refresh, hhit, haskAll, Option.map_none]
          · refine .inr ⟨first.refresh c :: seats', i + 1, seat, hit, answer, ?_, hseat, hhit',
              hask, rfl, rfl⟩
            simp only [askAll, lane_refresh, hhit, haskAll, Option.map_some]
      | some hit =>
          split at h
          next hnil => exact absurd hnil (Lane.hits_ne_nil_of_ask hhit hask)
          next =>
            cases h
            refine .inr ⟨first.refresh c :: rest, 0, first, hit, answer, ?_, rfl, hhit, hask,
              rfl, by simp⟩
            simp only [askAll, lane_refresh, hhit]

end Seat

theorem map_lane_seatsOf (g : Grammar) : (seatsOf g).map (·.lane) = g.rules.map Lane.ofRule := by
  simp only [Grammar.rules_eq_flatMap, seatsOf, List.map_flatMap, List.map_map, Function.comp_def]
  simp

abbrev Frame.moved (f : Frame) (seats : List (Seat f.grammar)) (nodes : List Node) (cursor : Nat)
    (again : Option Nat) : Frame :=
  { f with seats := seats, nodes := nodes, cursor := cursor, again := again }

theorem Frame.ask_of_again {f : Frame} {seat : Seat f.grammar} {i : Nat} {c : Cursor}
    (hagain : f.again = some i) (hseat : f.seats[i]? = some seat) :
    f.ask c = .ok (f.seats.set i (seat.refresh c),
      ((seat.refresh c).lane.hitAt? c).map fun hit => (i, seat.refresh c, hit)) := by
  simp only [Frame.ask, hagain, hseat]

namespace Frame.Follows

variable {f : Frame} {run : Forest.Run} {steps : List Step} {nodes : List Node}
  {seat : Seat f.grammar} {i : Nat} (outer : List Pending)

theorem reaches_hit {seats : List (Seat f.grammar)} {hit : Hit} {d : Cursor} {front : List Char}
    (h : f.Follows run (.take seat.lane.rule hit :: steps) nodes)
    (hinside : ∀ inner, seat.pattern.inside = some inner → Runs inner)
    (hgo : ¬(f.again = none ∧ Text.width f.text ≤ f.cursor))
    (hask : f.ask run.place = .ok (seats, some (i, seat, hit)))
    (hread : run.place.readTo? hit.stop = some (front, d)) :
    ∃ made, let f' := f.moved seats made d.offset (if seat.pattern.global then some i else none)
      Reaches (.scanning f outer) (.scanning f' outer) ∧ f'.Follows (.start d) steps nodes := by
  have hstart := (Frame.start_of_ask hask).1
  obtain ⟨made, matched, s, htake, hreaches, hfollows⟩ :=
    (h.withSeats seats f.again).take outer (i := i) hinside hstart hread
  rw [Cursor.offset_of_readTo? hread]
  refine ⟨.matched matched :: made, .head ?_ hreaches, hfollows⟩
  simp only [step, if_neg hgo, h.place_eq, bind, Except.bind, hask, htake]
  rfl

/-- Where a rule is asked, by itself or as the first that has a hit, the frame takes the hits that
the lane takes. -/
theorem reaches_ask {c : Cursor} {answer : Lane.Answer} {seats : List (Seat f.grammar)}
    (h : f.Follows run (answer.hits.map (.take seat.lane.rule) ++ steps) nodes)
    (hplace : run.place = c) (hinside : ∀ inner, seat.pattern.inside = some inner → Runs inner)
    (hgo : ¬(f.again = none ∧ Text.width f.text ≤ f.cursor))
    (hfound : f.ask c =
      .ok (seats, ((seat.refresh c).lane.hitAt? c).map fun hit => (i, seat.refresh c, hit)))
    (hseat : seats[i]? = some (seat.refresh c)) (hask : seat.lane.ask c = .ok answer)
    (htakes : f.again = none → answer.hits ≠ []) :
    ∃ run' made other, let f' := f.moved (seats.set i other) made answer.place.offset none
      run'.place = answer.place ∧ other.lane = answer.lane ∧
      Reaches (.scanning f outer) (.scanning f' outer) ∧ f'.Follows run' steps nodes := by
  induction hlength : c.after.length using Nat.strongRecOn
    generalizing f seat answer c run seats with
  | ind length ih =>
      subst hplace
      obtain ⟨hi, hget⟩ := List.getElem?_eq_some_iff.mp hseat
      have hset : seats.set i (seat.refresh run.place) = seats := by
        rw [← hget, List.set_getElem_self]
      cases hhit : (seat.refresh run.place).lane.hitAt? run.place with
      | none =>
          -- Without a hit, the rule was asked by itself and is given up.
          rw [Lane.ask_of_hitAt?_eq_none hhit] at hask
          cases hask
          have hagain : f.again.isSome := Option.isSome_iff_ne_none.mpr fun hnone =>
            htakes hnone rfl
          rw [hhit, Option.map_none] at hfound
          refine ⟨run, f.nodes, seat.refresh run.place, rfl, rfl, .single ?_, ?_⟩
          · simp only [step, if_neg hgo, h.place_eq, bind, Except.bind, hfound, hagain, if_true,
              Frame.moved, ← h.cursor_eq, hset]
            rfl
          · rw [← h.cursor_eq]
            exact h.withSeats _ _
      | some hit =>
          rw [hhit, Option.map_some] at hfound
          obtain ⟨front, d, hread, hcases⟩ := Lane.ask_cases hhit hask
          obtain ⟨hstart, hemits⟩ := Lane.hitAt?_start hhit
          have hrule : (seat.refresh run.place).lane.rule = seat.lane.rule := by simp
          rcases hcases with ⟨hglobal, inner, hinner, rfl⟩ | ⟨hglobal, rfl⟩
          · -- A global rule is asked by itself from the end of the hit on.
            rw [List.map_cons, List.cons_append, ← hrule] at h
            obtain ⟨made, hreaches, hfollows⟩ :=
              h.reaches_hit outer hinside hgo hfound hread
            rw [seat.global_eq] at hglobal
            rw [Seat.pattern_refresh, if_pos hglobal] at hreaches hfollows
            have hshorter : d.after.length < length :=
              hlength ▸ Cursor.length_after_readTo? hread
                (by have := hit.start_le_contextEnd; omega)
            have hseat' : (seats.set i ((seat.refresh run.place).refresh d))[i]? =
                some ((seat.refresh run.place).refresh d) := List.getElem?_set_self hi
            obtain ⟨run', made', other, hplace, hlane, hreaches', hfollows'⟩ :=
              ih _ hshorter hfollows rfl hinside (by simp) (Frame.ask_of_again rfl hseat) hseat'
                hinner (by simp) rfl
            simp only [List.set_set] at hreaches' hfollows'
            exact ⟨run', made', other, hplace, hlane, hreaches.trans hreaches', hfollows'⟩
          · rw [List.map_cons, List.map_nil, List.cons_append, List.nil_append, ← hrule] at h
            obtain ⟨made, hreaches, hfollows⟩ :=
              h.reaches_hit outer hinside hgo hfound hread
            rw [seat.global_eq] at hglobal
            rw [Seat.pattern_refresh, hglobal] at hreaches hfollows
            refine ⟨.start d, made, seat.refresh run.place, rfl, rfl, ?_⟩
            rw [hset]
            exact ⟨hreaches, hfollows⟩

theorem cursor_lt_width {char : Char} {d : Cursor} (h : f.Follows run steps nodes)
    (hnext : run.place.next? = some (char, d)) : f.cursor < Text.width f.text := by
  have hd := Cursor.text_eq_of_le (Cursor.le_of_next? hnext)
  rw [h.text_eq, h.cursor_eq]
  exact Nat.lt_of_lt_of_le (Cursor.offset_lt_of_next? hnext) (Cursor.boundary_offset hd).le_width

theorem width_le_cursor (h : f.Follows run steps nodes) (hnext : run.place.next? = none) :
    Text.width f.text ≤ f.cursor := by
  have hwidth : Text.width f.text = f.cursor := by
    rw [h.text_eq, h.cursor_eq, Cursor.text, Cursor.next?_eq_none_iff.mp hnext, List.append_nil,
      Text.width_reverse, run.place.offset_eq]
  exact Nat.le_of_eq hwidth

/-- A scan from the place of a frame on leads to its nodes. -/
theorem reaches_run {lanes lanes' : List Lane} {c : Cursor}
    (hrun : Scan.run lanes c = .ok (steps, lanes'))
    (hinside : ∀ token ∈ f.grammar.tokens, ∀ pattern ∈ token.patterns, ∀ inner,
      pattern.inside = some inner → Runs inner)
    (hagain : f.again = none) (hlanes : f.seats.map (·.lane) = lanes) (hplace : run.place = c)
    (h : f.Follows run steps nodes) :
    Reaches (.scanning f outer) (.returning nodes outer) := by
  fun_induction Scan.run lanes c generalizing f run steps lanes' with
  | case1 lanes c hnext =>
      cases hrun
      subst hplace
      refine .single ?_
      simp only [step, if_pos (And.intro hagain (h.width_le_cursor hnext)), h.reverse_eq]
  | case2 => cases hrun
  | case3 lanes c char d hnext lanes₁ rule answer hask ih =>
      subst hplace hlanes
      obtain ⟨⟨rest, lanes₂⟩, hrest, heq⟩ := exists_of_bind_eq_ok hrun
      cases heq
      rcases Seat.askAll_cases hask with ⟨hnone, -⟩ |
        ⟨seats, i, seat, hit, answer', hfound, hseat, hhit, hask', hsome, rfl⟩
      · cases hnone
      cases hsome
      have hlt := h.cursor_lt_width hnext
      have hf : f.ask run.place = .ok (seats, ((seat.refresh run.place).lane.hitAt? run.place).map
          fun hit => (i, seat.refresh run.place, hit)) := by
        rw [Seat.lane_refresh, hhit, Option.map_some, ← hfound]
        simp only [Frame.ask, hagain]
      obtain ⟨run', made, other, hplace, hlane, hreaches, hfollows⟩ :=
        h.reaches_ask outer rfl (hinside _ seat.token_mem _ seat.pattern_mem)
          (by omega) hf hseat hask' (fun _ => Lane.hits_ne_nil_of_ask hhit hask')
      refine hreaches.trans (ih hrest hinside rfl ?_ hplace hfollows)
      rw [List.map_set, hlane]
  | case4 lanes c char d hnext lanes₁ hask ih =>
      subst hplace hlanes
      obtain ⟨⟨rest, lanes₂⟩, hrest, heq⟩ := exists_of_bind_eq_ok hrun
      cases heq
      rcases Seat.askAll_cases hask with ⟨-, seats, hfound, rfl⟩ |
        ⟨_, _, _, _, _, _, _, _, _, hsome, _⟩
      · have hlt := h.cursor_lt_width hnext
        have hgo : ¬(f.again = none ∧ Text.width f.text ≤ f.cursor) := by omega
        have hf : f.ask run.place = .ok (seats, none) := by
          rw [← hfound]
          simp only [Frame.ask, hagain]
        obtain ⟨made, run', hskip, hplace, hfollows⟩ := (h.withSeats seats f.again).skip hnext
        refine .head ?_ (ih (f := f.moved seats made d.offset f.again) hrest hinside hagain rfl
          hplace hfollows)
        have hmain : ¬f.again.isSome = true := by simp [hagain]
        simp only [step, if_neg hgo, h.place_eq, bind, Except.bind, hf, if_neg hmain, hskip]
        rfl
      · cases hsome

end Frame.Follows

theorem runs_of_insides {g : Grammar}
    (hinside : ∀ token ∈ g.tokens, ∀ pattern ∈ token.patterns, ∀ inner,
      pattern.inside = some inner → Runs inner) : Runs g := by
  intro base text outer nodes hlt hnodes
  obtain ⟨steps, hsteps, hbuild⟩ := exists_of_bind_eq_ok hnodes
  obtain ⟨⟨_, lanes⟩, hrun, rfl⟩ := exists_of_map_eq_ok hsteps
  have hfollows : (Frame.start g base text).Follows (.start (.start text)) _ nodes :=
    ⟨(Cursor.start_text text).symm, rfl, hlt, Forest.Run.sound_start _, [], [], nodes, rfl, rfl,
      Plain.closed_nil, hbuild, rfl⟩
  exact hfollows.reaches_run outer hrun hinside rfl (map_lane_seatsOf g) rfl

theorem runs (g : Grammar) : Runs g := by
  induction g using Grammar.inside_induction with
  | step g ih => exact runs_of_insides ih

end Machine

end Highlight
