import Highlight.Proofs.Regex.Extension
import Highlight.Proofs.Scan.Pieces

/-!
Scans of a text that goes on. Where the rules have the same hits in the longer text, both scans take
the same steps. If that is so at all places but the last character and the end, they come to the
last character together, or a hit leads them over it (`Plain.exists_arrives`).
-/

namespace Highlight

open Regex

theorem Text.Boundary.append {text : List Char} {bytes : Nat} (h : Text.Boundary text bytes)
    (more : List Char) : Text.Boundary (text ++ more) bytes := by
  obtain ⟨front, back, rfl, hwidth⟩ := h
  exact ⟨front, back ++ more, List.append_assoc _ _ _, hwidth⟩

theorem Cursor.left_of_next? {c d : Cursor} {char : Char} (h : c.next? = some (char, d)) :
    c.left = d.left + 1 := by
  rw [c.left_eq, d.left_eq, (next?_eq_some_iff.mp h).1, List.length_cons]

theorem Hit.Spans.extend {hit : Hit} {c d : Cursor} (h : hit.Spans c d) (more : List Char) :
    hit.Spans (c.extend more) (d.extend more) := by
  obtain ⟨front, hafter, hbefore⟩ := h.le
  refine ⟨h.start, h.emits, (Cursor.Reads.extend ⟨hafter, hbefore⟩ more).le, h.stop, ?_⟩
  rw [Cursor.text_extend]
  exact h.contextEnd.append more

theorem Path.extend {rules : List Rule} {c d : Cursor} {steps : List Step}
    (h : Path rules c steps d) (more : List Char) :
    Path rules (c.extend more) steps (d.extend more) := by
  induction h with
  | nil c => exact .nil _
  | @skip c d e char steps hnext _ ih =>
      show Path rules (c.extend more) (.skip (d.extend more).offset :: steps) (e.extend more)
      exact .skip (Cursor.next?_extend hnext more) ih
  | take hmem hspans _ ih => exact .take hmem (hspans.extend more) ih

theorem Hit.ofMatch_extend (lookbehind : Bool) (c : Cursor) (q : Progress) (more : List Char) :
    Hit.ofMatch lookbehind (.ofProgress (c.extend more) (q.extend more)) =
      Hit.ofMatch lookbehind (.ofProgress c q) := by
  have hstart : (Match.ofProgress (c.extend more) (q.extend more)).start =
      (Match.ofProgress c q).start := by
    cases hkeep : q.keep <;> simp [Match.ofProgress, Progress.extend, hkeep]
  have hgroup : (Match.ofProgress (c.extend more) (q.extend more)).groupEnd? 1 =
      (Match.ofProgress c q).groupEnd? 1 := by
    simp only [Match.groupEnd?, Match.ofProgress, Progress.lookup_extend, Option.map_map]
    rfl
  have hcontext : contextEndOf lookbehind (.ofProgress (c.extend more) (q.extend more)) =
      contextEndOf lookbehind (.ofProgress c q) := by
    simp only [contextEndOf, hstart, hgroup]
    rfl
  simp only [Hit.ofMatch, Hit.mk.injEq]
  exact ⟨hstart, hcontext, rfl⟩

/-- A rule has the same hit at a place if the text goes on, and takes no other one behind it. -/
structure Rule.Overlooks (more : List Char) (c : Cursor) (rule : Rule) : Prop where
  hitAt?_extend : Plain.hitAt? rule (c.extend more) =
    (Plain.hitAt? rule c).map fun found => (found.1, found.2.extend more)
  single : rule.global = true → Plain.hitAt? rule c = none

namespace Pattern

variable {p : Pattern} {name : String} {c : Cursor} {char : Char} {back : List Char}

theorem hitHere?_extend (hword : Unicode.isWord char.toNat = false)
    (h : p.regex.program.expr.overlooks char.toNat true = true) (hc : c.after ≠ []) :
    p.hitHere? (c.extend (char :: back)) = p.hitHere? c := by
  have hrun : p.regex.program.expr.run 0 (.ofPlace (c.extend (char :: back))) some =
      (p.regex.program.expr.run 0 (.ofPlace c) some).map (·.extend (char :: back)) :=
    Expr.run_extend hword 0 h (.ofPlace c) some some (fun _ => hc) (follows_some _)
  simp only [hitHere?, Expr.matchAt?, hrun, Option.map_map]
  refine congrArg (Option.map · _) (funext fun q => ?_)
  exact Hit.ofMatch_extend p.lookbehind c q _

theorem overlooks_rule (hsteady : p.regex.isSteady = true) (hglobal : p.global = false)
    (hword : Unicode.isWord char.toNat = false)
    (h : p.regex.program.expr.overlooks char.toNat true = true) (hc : c.after ≠ []) :
    (p.rule name).Overlooks (char :: back) c := by
  refine ⟨?_, fun htrue => by rw [rule_global, hglobal] at htrue; cases htrue⟩
  have hhere : p.hitHere? (c.extend (char :: back)) = p.hitHere? c := hitHere?_extend hword h hc
  cases hhit : Plain.hitAt? (p.rule name) c with
  | some found =>
      obtain ⟨hit, d⟩ := found
      obtain ⟨hfind, ⟨hstart, hemits⟩, front, hread⟩ := Plain.hitAt?_eq_some_iff.mp hhit
      rw [rule_find] at hfind
      have hfound := hitHere?_of_hit? hsteady hfind hstart
      exact hitAt?_of_hitHere? hsteady (hhere.trans hfound) hemits (Cursor.readTo?_extend hread _)
  | none =>
      rw [Option.map_none, Option.eq_none_iff_forall_ne_some]
      rintro ⟨hit, d⟩ hmore
      obtain ⟨hfind, ⟨hstart, hemits⟩, -⟩ := Plain.hitAt?_eq_some_iff.mp hmore
      rw [rule_find] at hfind
      have hfound := hhere.symm.trans (hitHere?_of_hit? hsteady hfind hstart)
      obtain ⟨hle, hfits⟩ := fits_of_hit? (hit?_of_hitHere? hsteady hfound)
      have hboundary : c.offset ≤ hit.stop :=
        Nat.le_trans hle (Nat.le_trans hit.start_le_contextEnd hit.contextEnd_le_stop)
      obtain ⟨front, e, hread⟩ := Cursor.exists_readTo?_iff.mpr ⟨hboundary, hfits.stop⟩
      rw [hitAt?_of_hitHere? hsteady hfound hemits hread] at hhit
      cases hhit

end Pattern

namespace Plain

variable {rules : List Rule} {c d e : Cursor} {more : List Char}

theorem hits_of_single {rule : Rule} {hit : Hit}
    (hsingle : rule.global = true → hitAt? rule c = none) (h : hitAt? rule c = some (hit, d)) :
    hits rule c = ([hit], d) := by
  rw [hits_of_hitAt?_eq_some h]
  split
  next hglobal =>
    rw [hsingle hglobal] at h
    cases h
  next => rfl

theorem spans_of_hitAt? {rule : Rule} {hit : Hit} (hsound : rule.Sound)
    (h : hitAt? rule c = some (hit, d)) : hit.Spans c d := by
  obtain ⟨hfind, ⟨hstart, hemits⟩, front, hread⟩ := hitAt?_eq_some_iff.mp h
  exact (hsound c hit hfind).2.spans_of_readTo? hstart (Hit.emits_iff.mp hemits) hread

theorem firstAt?_extend (h : ∀ rule ∈ rules, rule.Overlooks more c) :
    (firstAt? rules c = none ∧ firstAt? rules (c.extend more) = none) ∨
      ∃ rule ∈ rules, ∃ hit d, hitAt? rule c = some (hit, d) ∧
        firstAt? rules c = some (rule, [hit], d) ∧
        firstAt? rules (c.extend more) = some (rule, [hit], d.extend more) := by
  induction rules with
  | nil => exact .inl ⟨rfl, rfl⟩
  | cons rule rules ih =>
      obtain ⟨hrule, hrules⟩ := List.forall_mem_cons.mp h
      have hmore := hrule.hitAt?_extend
      cases hhit : hitAt? rule c with
      | none =>
          rw [hhit] at hmore
          rw [firstAt?_cons_of_nil (hits_of_hitAt?_eq_none hhit),
            firstAt?_cons_of_nil (hits_of_hitAt?_eq_none hmore)]
          exact (ih hrules).imp_right fun ⟨other, hother, hfirst⟩ =>
            ⟨other, List.mem_cons_of_mem _ hother, hfirst⟩
      | some found =>
          obtain ⟨hit, d⟩ := found
          rw [hhit] at hmore
          have hmore : hitAt? rule (c.extend more) = some (hit, d.extend more) := hmore
          have hsingle : rule.global = true → hitAt? rule (c.extend more) = none := by
            intro hglobal
            rw [hrule.single hglobal] at hhit
            cases hhit
          exact .inr ⟨rule, List.mem_cons_self, hit, d, hhit,
            firstAt?_cons_of_cons (hits_of_single hrule.single hhit),
            firstAt?_cons_of_cons (hits_of_single hsingle hmore)⟩

/-- From a place to another one, scans of a text and of one that goes on take the same steps. -/
structure Arrives (rules : List Rule) (more : List Char) (c d : Cursor) (front : List Step) :
    Prop where
  path : Path rules c front d
  steps_eq : steps rules c = front ++ steps rules d
  extend_eq : steps rules (c.extend more) = front ++ steps rules (d.extend more)

theorem Arrives.refl (rules : List Rule) (more : List Char) (c : Cursor) :
    Arrives rules more c c [] :=
  ⟨.nil c, rfl, rfl⟩

theorem Arrives.trans {front back : List Step} (h : Arrives rules more c d front)
    (h' : Arrives rules more d e back) : Arrives rules more c e (front ++ back) :=
  ⟨h.path.append h'.path, by rw [h.steps_eq, h'.steps_eq, List.append_assoc],
    by rw [h.extend_eq, h'.extend_eq, List.append_assoc]⟩

theorem arrives_skip {char : Char} (hnext : c.next? = some (char, d))
    (hfirst : firstAt? rules c = none) (hmore : firstAt? rules (c.extend more) = none) :
    Arrives rules more c d [.skip d.offset] :=
  ⟨.skip hnext (.nil d), steps_of_firstAt?_eq_none hnext hfirst,
    steps_of_firstAt?_eq_none (Cursor.next?_extend hnext more) hmore⟩

theorem arrives_take (hsound : ∀ rule ∈ rules, rule.Sound) {rule : Rule} {hit : Hit}
    (hrule : rule ∈ rules) (hhit : hitAt? rule c = some (hit, d))
    (hfirst : firstAt? rules c = some (rule, [hit], d))
    (hmore : firstAt? rules (c.extend more) = some (rule, [hit], d.extend more)) :
    Arrives rules more c d [.take rule hit] := by
  have hspans := spans_of_hitAt? (hsound rule hrule) hhit
  have hlt : d.after.length < c.after.length := length_after_hitAt? hhit
  cases hnext : c.next? with
  | none =>
      rw [Cursor.next?_eq_none_iff.mp hnext] at hlt
      cases hlt
  | some found =>
      exact ⟨.take hrule hspans (.nil d), steps_of_firstAt?_eq_some hnext hfirst,
        steps_of_firstAt?_eq_some (Cursor.next?_extend hnext more) hmore⟩

/-- One character is left at a place, or a hit takes in all that is left. -/
inductive Closes (rules : List Rule) (more : List Char) (c : Cursor) : Prop
  | char (left_eq : c.left = 1)
  | hit {rule : Rule} {hit : Hit} {d : Cursor} (two_le : 2 ≤ c.left) (mem : rule ∈ rules)
      (hitAt?_eq : hitAt? rule c = some (hit, d)) (left_eq : d.left = 0)
      (arrives : Arrives rules more c d [.take rule hit])

/-- If the rules have the same hits in both texts where two characters or more are left, the scans
come together to the last character, or to a hit that takes it in. -/
theorem exists_arrives (hsound : ∀ rule ∈ rules, rule.Sound) {text : List Char}
    (h : ∀ c : Cursor, c.text = text → 2 ≤ c.left → ∀ rule ∈ rules, rule.Overlooks more c)
    (htext : c.text = text) (hleft : 1 ≤ c.left) :
    ∃ front d, Arrives rules more c d front ∧ Closes rules more d := by
  induction hsize : c.left using Nat.strongRecOn generalizing c with
  | ind size ih =>
      subst hsize
      by_cases hone : c.left = 1
      · exact ⟨[], c, .refl rules more c, .char hone⟩
      have htwo : 2 ≤ c.left := by omega
      have hgo {d : Cursor} {front : List Step} (hfront : Arrives rules more c d front)
          (hlt : d.left < c.left) (hd : 1 ≤ d.left) :
          ∃ front d, Arrives rules more c d front ∧ Closes rules more d := by
        have htext' : d.text = text := (Cursor.text_eq_of_le hfront.path.le).trans htext
        obtain ⟨rest, e, hrest, hcloses⟩ := ih d.left hlt htext' hd rfl
        exact ⟨front ++ rest, e, hfront.trans hrest, hcloses⟩
      rcases firstAt?_extend (h c htext htwo) with
        ⟨hnone, hnone'⟩ | ⟨rule, hrule, hit, d, hhit, hsome, hsome'⟩
      · cases hnext : c.next? with
        | none =>
            rw [c.left_eq, Cursor.next?_eq_none_iff.mp hnext] at hleft
            cases hleft
        | some found =>
            have hless := Cursor.left_of_next? hnext
            exact hgo (arrives_skip hnext hnone hnone') (by omega) (by omega)
      · have htake := arrives_take hsound hrule hhit hsome hsome'
        have hless := length_after_hitAt? hhit
        rw [← d.left_eq, ← c.left_eq] at hless
        by_cases hend : d.left = 0
        · exact ⟨[], c, .refl rules more c, .hit htwo hrule hhit hend htake⟩
        · exact hgo htake hless (Nat.pos_of_ne_zero hend)

end Plain

end Highlight
