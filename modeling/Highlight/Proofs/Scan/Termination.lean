import Highlight.Proofs.Scan.Simulation

/-!
Tokenizing comes to an end. Within a frame the cursor grows, or stays where a global rule is given
up, and a frame that is called has a grammar from inside the one that calls it. Hence no sequence
of steps goes on for ever (`wellFounded_move`), and the one that tokenizes a text ends with its
nodes, without a slip.
-/

namespace Highlight

namespace Machine

section Searching

variable [Regex.Searcher]

/-- The distance of a frame from the end of its text, and whether a global rule is still to be
given up. -/
def Frame.remaining (f : Frame) : Nat :=
  2 * (Text.width f.text - f.cursor) + if f.again = none then 0 else 1

namespace Frame.At

variable {f f' : Frame}

theorem remaining_lt_of_lt (h : f.At f'.cursor f') (hlt : f.cursor < f'.cursor)
    (hle : f'.cursor ≤ Text.width f.text) : f'.remaining < f.remaining := by
  unfold remaining
  rw [h.text_eq]
  split <;> split <;> omega

theorem remaining_lt_of_leave (h : f.At f.cursor f') (hagain : f.again ≠ none)
    (hleft : f'.again = none) : f'.remaining < f.remaining := by
  unfold remaining
  rw [h.text_eq, h.cursor_eq, if_neg hagain, if_pos hleft]
  omega

end Frame.At

theorem acc_scanning (g : Grammar) : ∀ f outer, f.grammar = g →
    (∀ nodes, Acc (fun s' s => Move s s') (.returning nodes outer)) →
    Acc (fun s' s => Move s s') (.scanning f outer) := by
  induction g using Grammar.inside_induction with
  | step g ihg =>
      intro f outer hgrammar hreturning
      induction hremaining : f.remaining using Nat.strongRecOn generalizing f with
      | ind remaining ih =>
          subst hgrammar hremaining
          refine .intro _ ?_
          intro s hmove
          cases hmove with
          | iterate hat hlt hle =>
              exact ih _ (hat.remaining_lt_of_lt hlt hle) _ hat.grammar_eq rfl
          | leave hagain hleft hat =>
              exact ih _ (hat.remaining_lt_of_leave hagain hleft) _ hat.grammar_eq rfl
          | finish => exact hreturning _
          | @call _ inner p _ token pattern htoken hpattern hinside hcursor hwaits hlt hle =>
              -- The frame that waits goes on farther in the text, whatever is returned to it.
              refine ihg token htoken pattern hpattern _ hinside inner _ rfl ?_
              intro nodes
              refine .intro _ ?_
              intro s hmove
              cases hmove with
              | @resume _ _ f' _ hstop =>
                  have hat : f.At f'.cursor f' :=
                    ⟨hstop.grammar_eq.trans hwaits.grammar_eq, hstop.text_eq.trans hwaits.text_eq,
                      rfl⟩
                  refine ih _ (hat.remaining_lt_of_lt ?_ ?_) f' hat.grammar_eq rfl
                  · rwa [hstop.cursor_eq]
                  · rwa [hstop.cursor_eq]

theorem wellFounded_move : WellFounded fun s' s => Move s s' := by
  have hreturning : ∀ outer nodes, Acc (fun s' s => Move s s') (.returning nodes outer) := by
    intro outer
    induction outer with
    | nil =>
        intro nodes
        refine .intro _ ?_
        rintro s ⟨⟩
    | cons p outer ih =>
        intro nodes
        refine .intro _ ?_
        intro s hmove
        cases hmove with
        | resume hstop => exact acc_scanning _ _ outer rfl ih
  refine ⟨fun s => ?_⟩
  cases s with
  | scanning f outer => exact acc_scanning _ f outer rfl (hreturning outer)
  | returning nodes outer => exact hreturning outer nodes

theorem wellFounded_step : WellFounded fun s' s => step s = .ok (some s') :=
  Subrelation.wf Move.of_step wellFounded_move

/-- The cursor of a frame that waits is to go on, but not beyond its text. -/
structure Pending.Bounded (p : Pending) : Prop where
  lt : p.frame.cursor < p.hit.stop
  le : p.hit.stop ≤ Text.width p.frame.text

def State.Bounded : State → Prop
  | .scanning f outer => f.cursor ≤ Text.width f.text ∧ ∀ p ∈ outer, p.Bounded
  | .returning _ outer => ∀ p ∈ outer, p.Bounded

theorem State.bounded_initial (g : Grammar) (text : String) : (initial g text).Bounded :=
  ⟨Nat.zero_le _, by simp⟩

theorem Move.bounded {s s' : State} (h : Move s s') (hs : s.Bounded) : s'.Bounded := by
  cases h with
  | iterate hat hlt hle => exact ⟨hat.text_eq ▸ hle, hs.2⟩
  | leave hagain hleft hat => exact ⟨by rw [hat.text_eq, hat.cursor_eq]; exact hs.1, hs.2⟩
  | call htoken hpattern hinside hcursor hwaits hlt hle =>
      refine ⟨by rw [hcursor]; exact Nat.zero_le _, List.forall_mem_cons.mpr ⟨⟨?_, ?_⟩, hs.2⟩⟩
      · rwa [hwaits.cursor_eq]
      · rwa [hwaits.text_eq]
  | resume hat =>
      obtain ⟨hp, houter⟩ := List.forall_mem_cons.mp hs
      refine ⟨?_, houter⟩
      rw [hat.text_eq, hat.cursor_eq]
      exact hp.le
  | finish => exact hs.2

theorem Reaches.bounded {s s' : State} (h : Reaches s s') (hs : s.Bounded) : s'.Bounded := by
  induction h with
  | refl => exact hs
  | tail _ hstep ih => exact (Move.of_step hstep).bounded ih

theorem leave_of_step {f : Frame} {outer : List Pending} {s : State}
    (h : step (.scanning f outer) = .ok (some s)) (hagain : f.again ≠ none)
    (hend : f.cursor = Text.width f.text) :
    ∃ f', s = .scanning f' outer ∧ f'.again = none ∧ f.At f.cursor f' := by
  cases Move.of_step h with
  | iterate hat hlt hle => omega
  | leave hagain hleft hat => exact ⟨_, rfl, hleft, hat⟩
  | call htoken hpattern hinside hcursor hwaits hlt hle => omega
  | finish hnone hdone => exact absurd hnone hagain

/-- A state whose steps lead to the end comes to no other end, and to no slip. -/
theorem eq_or_exists_step_of_reaches {s s' : State} {nodes : List Node}
    (hend : Reaches s (.returning nodes [])) (h : Reaches s s') :
    s' = .returning nodes [] ∨ ∃ next, step s' = .ok (some next) := by
  have hunique : Relator.RightUnique fun s s' : State => step s = .ok (some s') := by
    intro s first second hfirst hsecond
    rw [hfirst] at hsecond
    cases hsecond
    rfl
  rcases Relation.ReflTransGen.total_of_right_unique hunique h hend with hrest | hbeyond
  · rcases hrest.cases_head with rfl | ⟨next, hstep, -⟩
    · exact .inl rfl
    · exact .inr ⟨next, hstep⟩
  · rcases hbeyond.cases_head with rfl | ⟨next, hstep, -⟩
    · exact .inl rfl
    · cases hstep

end Searching

end Machine

namespace Grammar

open Machine

theorem exists_reaches_tokenize [Regex.Searcher] [Regex.LawfulSearcher] (g : Grammar)
    (text : String) (hwidth : Text.width text.toList < UInt32.size) :
    ∃ nodes, g.tokenize text = .ok nodes ∧ Node.Spells 0 text.toList nodes ∧
      Reaches (.initial g text) (.returning nodes []) := by
  obtain ⟨nodes, hnodes, hspells⟩ := g.exists_tokenize hwidth
  exact ⟨nodes, hnodes, hspells, runs g 0 text.toList [] nodes (by rwa [Nat.zero_add]) hnodes⟩

/-- No step in tokenizing a text cuts it inside a character or out of order, and no offset is cut
down or falls below that of its text. The steps end with the nodes of the text. -/
theorem tokenize_never_slips [Regex.Searcher] [Regex.LawfulSearcher] (g : Grammar) (text : String)
    (hwidth : Text.width text.toList < UInt32.size) :
    (∀ s, Reaches (.initial g text) s → ∃ next, step s = .ok next) ∧
      ∃ nodes, Reaches (.initial g text) (.returning nodes []) ∧ g.tokenize text = .ok nodes := by
  obtain ⟨nodes, hnodes, -, hreaches⟩ := g.exists_reaches_tokenize text hwidth
  refine ⟨?_, nodes, hreaches, hnodes⟩
  intro s hs
  rcases eq_or_exists_step_of_reaches hreaches hs with rfl | ⟨next, hstep⟩
  · exact ⟨none, rfl⟩
  · exact ⟨some next, hstep⟩

theorem tokenize_never_slips_dottedName :
    ∃ g nodes, dottedName = .ok g ∧
      (∀ s, Reaches (.initial g "é new a.b ü") s → ∃ next, step s = .ok next) ∧
      Reaches (.initial g "é new a.b ü") (.returning nodes []) ∧
      nodes.map (·.text) = ["é new ", "a.b", " ü"] := by
  have htexts : (dottedName.toOption.bind fun g =>
      (g.tokenize "é new a.b ü").toOption.map (·.map (·.text))) =
        some ["é new ", "a.b", " ü"] := by decide +kernel
  cases hg : dottedName with
  | error e => simp [hg, Except.toOption] at htexts
  | ok g =>
      obtain ⟨hstep, nodes, hreaches, hnodes⟩ := g.tokenize_never_slips "é new a.b ü" (by decide)
      refine ⟨g, nodes, rfl, hstep, hreaches, ?_⟩
      simpa [hg, hnodes, Except.toOption] using htexts

/-- Each step in tokenizing a text is a move on, with all cursors within their texts, and a global
rule is given up at the end of a text. So the steps end, with no more nodes on any level than
there are characters. -/
theorem tokenize_terminates [Regex.Searcher] [Regex.LawfulSearcher] (g : Grammar) (text : String)
    (hwidth : Text.width text.toList < UInt32.size) :
    Acc (fun s' s => step s = .ok (some s')) (.initial g text) ∧
      (∀ s, Reaches (.initial g text) s → s.Bounded ∧ ∀ s', step s = .ok (some s') → Move s s') ∧
      (∀ f outer, Reaches (.initial g text) (.scanning f outer) → f.again ≠ none →
        f.cursor = Text.width f.text → ∃ f', step (.scanning f outer) =
          .ok (some (.scanning f' outer)) ∧ f'.again = none ∧ f.At f.cursor f') ∧
      ∃ nodes, Reaches (.initial g text) (.returning nodes []) ∧ g.tokenize text = .ok nodes ∧
        nodes.length ≤ text.length ∧
        ∀ node : Node, node.OccursIn nodes → node.children.length ≤ node.text.length := by
  obtain ⟨nodes, hnodes, hspells, hreaches⟩ := g.exists_reaches_tokenize text hwidth
  refine ⟨wellFounded_step.apply _, ?_, ?_, nodes, hreaches, hnodes, ?_, ?_⟩
  · intro s hs
    exact ⟨hs.bounded (State.bounded_initial g text), fun s' => Move.of_step⟩
  · intro f outer hf hagain hend
    obtain heq | ⟨s, hstep⟩ := eq_or_exists_step_of_reaches hreaches hf
    · cases heq
    · obtain ⟨f', rfl, hleft, hat⟩ := leave_of_step hstep hagain hend
      exact ⟨f', hstep, hleft, hat⟩
  · exact hspells.length_le
  · intro node hoccurs
    exact hspells.length_children_of_occursIn hoccurs

theorem tokenize_terminates_dottedName :
    ∃ g nodes, dottedName = .ok g ∧
      Acc (fun s' s => step s = .ok (some s')) (.initial g "é new a.b ü") ∧
      Reaches (.initial g "é new a.b ü") (.returning nodes []) ∧ nodes.length ≤ 11 := by
  have hcompiles : dottedName.toOption.isSome = true := by decide +kernel
  cases hg : dottedName with
  | error e => simp [hg, Except.toOption] at hcompiles
  | ok g =>
      obtain ⟨hacc, -, -, nodes, hreaches, -, hlength, -⟩ :=
        g.tokenize_terminates "é new a.b ü" (by decide)
      exact ⟨g, nodes, rfl, hacc, hreaches, hlength⟩

end Grammar

end Highlight
