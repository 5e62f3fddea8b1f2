import Highlight.Scan.Rule

/-!
Scanning. At each place the rules are asked in order, and the first that has a hit right there
takes it; where none does, a character is skipped. Each step moves on (`length_after_ask`,
`length_after_askAll`).
-/

namespace Highlight

inductive Step where
  /-- No rule takes the character that ends at an offset. -/
  | skip (stop : Nat)
  | take (rule : Rule) (hit : Hit)

namespace Lane

/-- What becomes of a lane that is asked at a place: the hits that it takes, and the place behind
the last one. -/
structure Answer where
  lane : Lane
  hits : List Hit
  place : Cursor

/-- Ask a lane for a hit at a place. A global rule is asked again behind each hit. -/
def ask (lane : Lane) (c : Cursor) : Except Fault Answer :=
  let lane := lane.refresh c
  match _h : lane.hitAt? c with
  | none => .ok ⟨lane, [], c⟩
  | some hit =>
      match _hread : c.readTo? hit.stop with
      | none => .error .cut
      | some (_, d) =>
          if lane.rule.global then do
            let answer ← ask lane d
            return { answer with hits := hit :: answer.hits }
          else
            .ok ⟨lane, [hit], d⟩
termination_by c.after.length
decreasing_by
  have hstart := hitAt?_start ‹_›
  have := hit.start_le_contextEnd
  exact Cursor.length_after_readTo? ‹_› (by omega)

/-- A lane that takes a hit moves on, and one that takes none stays. -/
theorem length_after_ask {lane : Lane} {c : Cursor} {answer : Answer}
    (h : lane.ask c = .ok answer) :
    (answer.hits = [] ∧ answer.place = c) ∨
      (answer.hits ≠ [] ∧ answer.place.after.length < c.after.length) := by
  fun_induction ask lane c generalizing answer with
  | case1 =>
      cases h
      exact .inl ⟨rfl, rfl⟩
  | case2 => cases h
  | case3 lane c lane' hit hhit front d hread hglobal =>
      have hstart := hitAt?_start hhit
      have hle := hit.start_le_contextEnd
      have hshorter := Cursor.length_after_readTo? hread (by omega)
      rename_i ih
      cases hask : lane'.ask d with
      | error fault =>
          rw [hask] at h
          cases h
      | ok inner =>
          rw [hask] at h
          cases h
          refine .inr ⟨by simp, ?_⟩
          rcases ih hask with ⟨-, hplace⟩ | ⟨-, hplace⟩
          · simpa [hplace] using hshorter
          · exact Nat.lt_trans hplace hshorter
  | case4 lane c lane' hit hhit front d hread =>
      have hstart := hitAt?_start hhit
      have hle := hit.start_le_contextEnd
      cases h
      exact .inr ⟨by simp, Cursor.length_after_readTo? hread (by omega)⟩

end Lane

namespace Scan

/-- Ask lanes in order until one takes a hit. -/
def askAll (c : Cursor) : List Lane → Except Fault (List Lane × Option (Rule × Lane.Answer))
  | [] => .ok ([], none)
  | lane :: rest => do
      let answer ← lane.ask c
      match answer.hits with
      | [] =>
          let (rest, taken) ← askAll c rest
          return (answer.lane :: rest, taken)
      | _ :: _ => return (answer.lane :: rest, some (lane.rule, answer))

theorem length_after_askAll {c : Cursor} {lanes lanes' : List Lane} {rule : Rule}
    {answer : Lane.Answer} (h : askAll c lanes = .ok (lanes', some (rule, answer))) :
    answer.place.after.length < c.after.length := by
  induction lanes generalizing lanes' with
  | nil => cases h
  | cons lane rest ih =>
      rw [askAll] at h
      cases hask : lane.ask c with
      | error fault =>
          rw [hask] at h
          cases h
      | ok first =>
          simp only [hask, bind, Except.bind] at h
          split at h
          next hhits =>
            cases hrest : askAll c rest with
            | error fault =>
                rw [hrest] at h
                cases h
            | ok found =>
                obtain ⟨rest', taken⟩ := found
                rw [hrest] at h
                cases h
                exact ih hrest
          next hit hits hhits =>
            cases h
            rcases Lane.length_after_ask hask with ⟨hnil, -⟩ | ⟨-, hplace⟩
            · simp [hhits] at hnil
            · exact hplace

def run (lanes : List Lane) (c : Cursor) : Except Fault (List Step × List Lane) :=
  match _hnext : c.next? with
  | none => .ok ([], lanes)
  | some (_, d) =>
      match _hask : askAll c lanes with
      | .error fault => .error fault
      | .ok (lanes, some (rule, answer)) => do
          let (steps, lanes) ← run lanes answer.place
          return (answer.hits.map (.take rule) ++ steps, lanes)
      | .ok (lanes, none) => do
          let (steps, lanes) ← run lanes d
          return (.skip d.offset :: steps, lanes)
termination_by c.after.length
decreasing_by
  · exact length_after_askAll ‹_›
  · exact Cursor.length_after_next? ‹_›

def steps (rules : List Rule) (text : List Char) : Except Fault (List Step) :=
  (run (rules.map Lane.ofRule) (.start text)).map (·.1)

/-- The searches in a scan, newest first, for each rule. -/
def searches (rules : List Rule) (text : List Char) : Except Fault (List (List Nat)) :=
  (run (rules.map Lane.ofRule) (.start text)).map (·.2.map (·.searches))

end Scan

end Highlight
