import Highlight.Proofs.Tree.Leaves
import Highlight.Tree.Visit

/-!
What visitors of a tree are called with. The calls of a walk that goes into some tokens only
depend on the kinds that it leaves out. Any visitor gets them one after another, they are nested
like the tokens, and they are those of a walk that leaves out nothing, less what lies within the
tokens left out (`Visitor.visitAll_laws`).
-/

namespace Highlight

namespace Visitor

variable {σ : Type}

/-- A visitor goes into all tokens but those of some kinds. -/
def Skips (v : Visitor σ) (skips : String → Bool) : Prop :=
  ∀ token s, (v.enter token s).1 = !skips token.kind

theorem visitAll_literal (v : Visitor σ) (text : String) (range : TextRange)
    (rest : List Node) (s : σ) :
    v.visitAll (.literal text range :: rest) s = v.visitAll rest (v.literal text range s) := by
  rw [visitAll, visit]

theorem visitAll_matched (v : Visitor σ) (token : Matched) (rest : List Node) (s : σ) :
    v.visitAll (.matched token :: rest) s =
      v.visitAll rest (v.leave token
        (if (v.enter token s).1 then v.visitAll token.children (v.enter token s).2
          else (v.enter token s).2)) := by
  obtain ⟨name, label, text, range, children⟩ := token
  rw [visitAll, visit, visitMatched]

/-- A call of a visitor. -/
inductive Call where
  | text (text : String) (range : TextRange)
  | enter (token : Matched)
  | exit (token : Matched)

namespace Call

/-- What a visitor makes of its state in a call. -/
def update (v : Visitor σ) (s : σ) : Call → σ
  | .text piece range => v.literal piece range s
  | .enter token => (v.enter token s).2
  | .exit token => v.leave token s

def literal? : Call → Option Node
  | .text piece range => some (.literal piece range)
  | .enter _ => none
  | .exit _ => none

/-- Each token that is left is the one that was entered last and is not left yet, and in the end
none remains. -/
def Nested : List Matched → List Call → Prop
  | opened, [] => opened = []
  | opened, .text _ _ :: rest => Nested opened rest
  | opened, .enter token :: rest => Nested (token :: opened) rest
  | [], .exit _ :: _ => False
  | last :: outer, .exit token :: rest => token = last ∧ Nested outer rest

/-- Calls with the tokens around each of them: those that were entered before it and are left
after it. -/
def surroundings : List Matched → List Call → List (List Matched × Call)
  | _, [] => []
  | opened, .text piece range :: rest =>
      (opened, .text piece range) :: surroundings opened rest
  | opened, .enter token :: rest =>
      (opened, .enter token) :: surroundings (token :: opened) rest
  | opened, .exit token :: rest =>
      (opened.tail, .exit token) :: surroundings opened.tail rest

variable (skips : String → Bool)

/-- No kind of some tokens is left out. -/
def visible (tokens : List Matched) : Bool :=
  tokens.all fun token => !skips token.kind

/-- The calls that are not within a token of a kind left out. -/
def prune (opened : List Matched) (calls : List Call) : List Call :=
  ((surroundings opened calls).filter fun call => visible skips call.1).map (·.2)

theorem prune_text (opened : List Matched) (piece : String) (range : TextRange)
    (rest : List Call) :
    prune skips opened (.text piece range :: rest) =
      (if visible skips opened then [.text piece range] else []) ++ prune skips opened rest := by
  rw [prune, surroundings, List.filter_cons]
  split <;> rfl

theorem prune_enter (opened : List Matched) (token : Matched) (rest : List Call) :
    prune skips opened (.enter token :: rest) =
      (if visible skips opened then [.enter token] else []) ++
        prune skips (token :: opened) rest := by
  rw [prune, surroundings, List.filter_cons]
  split <;> rfl

theorem prune_exit (last : Matched) (outer : List Matched) (token : Matched)
    (rest : List Call) :
    prune skips (last :: outer) (.exit token :: rest) =
      (if visible skips outer then [.exit token] else []) ++ prune skips outer rest := by
  rw [prune, surroundings, List.tail_cons, List.filter_cons]
  split <;> rfl

/-- Take down all calls, and leave out the children of tokens of some kinds. -/
def tracer : Visitor (List Call) where
  literal piece range calls := calls ++ [.text piece range]
  enter token calls := (!skips token.kind, calls ++ [.enter token])
  leave token calls := calls ++ [.exit token]

def trace (nodes : List Node) : List Call :=
  (tracer skips).visitAll nodes []

theorem tracer_visitAll (nodes : List Node) (calls : List Call) :
    (tracer skips).visitAll nodes calls = calls ++ trace skips nodes := by
  induction nodes using Node.forest_induction generalizing calls with
  | nil => simp [trace, Visitor.visitAll]
  | literal piece range rest ih =>
      rw [trace, Visitor.visitAll_literal, Visitor.visitAll_literal, ih,
        ih ((tracer skips).literal piece range [])]
      simp [tracer]
  | matched token rest ihchildren ihrest =>
      rw [trace, Visitor.visitAll_matched, Visitor.visitAll_matched, ihrest,
        ihrest ((tracer skips).leave token _), ihchildren, ihchildren]
      cases hskip : skips token.kind <;> simp [tracer, hskip]

@[simp]
theorem trace_nil : trace skips [] = [] := by
  rw [trace, Visitor.visitAll]

theorem trace_literal (piece : String) (range : TextRange) (rest : List Node) :
    trace skips (.literal piece range :: rest) = .text piece range :: trace skips rest := by
  rw [trace, Visitor.visitAll_literal, tracer_visitAll]
  rfl

theorem trace_matched (token : Matched) (rest : List Node) :
    trace skips (.matched token :: rest) =
      .enter token :: ((if skips token.kind then [] else trace skips token.children) ++
        .exit token :: trace skips rest) := by
  rw [trace, Visitor.visitAll_matched, tracer_visitAll, tracer_visitAll]
  cases hskip : skips token.kind <;> simp [tracer, hskip]

/-- What follows the calls of some nodes is nested as if they were not there. -/
theorem nested_trace_append (nodes : List Node) (opened : List Matched) (rest : List Call) :
    Nested opened (trace skips nodes ++ rest) ↔ Nested opened rest := by
  induction nodes using Node.forest_induction generalizing opened rest with
  | nil => rw [trace_nil, List.nil_append]
  | literal piece range others ih =>
      rw [trace_literal, List.cons_append, Nested]
      exact ih opened rest
  | matched token others ihchildren ihothers =>
      have hinside : Nested (token :: opened)
            ((if skips token.kind then [] else trace skips token.children) ++
              .exit token :: (trace skips others ++ rest)) ↔
          Nested (token :: opened) (.exit token :: (trace skips others ++ rest)) := by
        split
        · rw [List.nil_append]
        · exact ihchildren _ _
      rw [trace_matched, List.cons_append, List.append_assoc, List.cons_append, Nested, hinside,
        Nested, ihothers]
      exact and_iff_right rfl

/-- The calls of a full walk within some open tokens: all that the pruned walk has, or none. -/
theorem prune_trace_append (nodes : List Node) (opened : List Matched) (rest : List Call) :
    prune skips opened (trace (fun _ => false) nodes ++ rest) =
      (if visible skips opened then trace skips nodes else []) ++ prune skips opened rest := by
  induction nodes using Node.forest_induction generalizing opened rest with
  | nil => simp
  | literal piece range others ih =>
      rw [trace_literal, trace_literal, List.cons_append, prune_text, ih]
      cases visible skips opened <;> rfl
  | matched token others ihchildren ihothers =>
      have hvisible : visible skips (token :: opened) =
          (!skips token.kind && visible skips opened) := rfl
      rw [trace_matched, trace_matched, List.cons_append, List.append_assoc, List.cons_append,
        prune_enter, if_neg Bool.false_ne_true, ihchildren, prune_exit, ihothers, hvisible]
      cases skips token.kind <;> cases visible skips opened <;> simp

theorem filterMap_literal?_trace (nodes : List Node) :
    (trace (fun _ => false) nodes).filterMap literal? =
      (Node.leavesOf nodes).filter (·.isLiteral) := by
  induction nodes using Node.forest_induction with
  | nil => simp
  | literal piece range rest ih =>
      rw [trace_literal, Node.leavesOf_cons_of_leaf _ rfl, List.filter_cons_of_pos rfl, ← ih]
      rfl
  | matched token rest ihchildren ihrest =>
      rw [trace_matched, if_neg Bool.false_ne_true, List.filterMap_cons_none rfl,
        List.filterMap_append, List.filterMap_cons_none rfl, ihrest, ihchildren]
      by_cases hleaf : token.children = []
      · rw [Node.leavesOf_cons_of_leaf (.matched token) hleaf, hleaf, Node.leavesOf_nil]
        rfl
      · rw [Node.leavesOf_cons_of_inner (.matched token) hleaf, List.filter_append]
        rfl

end Call

variable {v : Visitor σ} {skips : String → Bool}

theorem visitAll_eq_foldl (h : v.Skips skips) (nodes : List Node) (s : σ) :
    v.visitAll nodes s = (Call.trace skips nodes).foldl (Call.update v) s := by
  induction nodes using Node.forest_induction generalizing s with
  | nil =>
      rw [Call.trace_nil, visitAll]
      rfl
  | literal piece range rest ih =>
      rw [visitAll_literal, Call.trace_literal, ih, List.foldl_cons]
      rfl
  | matched token rest ihchildren ihrest =>
      rw [visitAll_matched, Call.trace_matched, ihrest, ihchildren, h, List.foldl_cons,
        List.foldl_append, List.foldl_cons]
      cases skips token.kind <;> rfl

/-- A visitor that goes into all tokens but those of some kinds gets the calls of a trace. In it,
each token that the walk comes to is entered once and left once, with the calls of its children in
between unless it is of one of the kinds, and the last token entered is left first. It is the trace
that goes into all tokens without what lies within a token of one of the kinds, and the texts in the
full trace are the leaves that are literals. -/
theorem visitAll_laws (v : Visitor σ) (skips : String → Bool) (h : v.Skips skips)
    (nodes : List Node) (s : σ) :
    v.visitAll nodes s = (Call.trace skips nodes).foldl (Call.update v) s ∧
      (∀ token rest, Call.trace skips (.matched token :: rest) =
        .enter token :: ((if skips token.kind then [] else Call.trace skips token.children) ++
          .exit token :: Call.trace skips rest)) ∧
      Call.Nested [] (Call.trace skips nodes) ∧
      Call.trace skips nodes = Call.prune skips [] (Call.trace (fun _ => false) nodes) ∧
      (LeafWalk.ofNodes nodes).Yields (Node.leavesOf nodes) ∧
      (Call.trace (fun _ => false) nodes).filterMap Call.literal? =
        (Node.leavesOf nodes).filter (·.isLiteral) := by
  refine ⟨visitAll_eq_foldl h nodes s, Call.trace_matched skips, ?_, ?_, ?_,
    Call.filterMap_literal?_trace nodes⟩
  · have hnested := (Call.nested_trace_append skips nodes [] []).mpr rfl
    rwa [List.append_nil] at hnested
  · have hprune := Call.prune_trace_append skips nodes [] []
    rw [List.append_nil] at hprune
    rw [hprune]
    exact (List.append_nil _).symm
  · rw [← LeafWalk.remaining_ofNodes]
    exact LeafWalk.yields_remaining _

theorem skips_recorder (skip : List String) : (Visit.recorder skip).Skips skip.contains :=
  fun _ _ => rfl

theorem visitAll_laws_opaque :
    ∃ token, token.kind = "opaque" ∧ token.children ≠ [] ∧
      (Visit.recorder ["opaque"]).Skips ["opaque"].contains ∧
      Visit.recordAll (Visit.recorder ["opaque"]) [.matched token] =
        [.enter "opaque", .exit "opaque"] ∧
      Call.Nested [] (Call.trace ["opaque"].contains [.matched token]) := by
  refine ⟨⟨"group", some "opaque", "[1]", ⟨0, 3, by decide⟩, [.literal "[1]" ⟨0, 3, by decide⟩]⟩,
    rfl, by simp, skips_recorder _, ?_, ?_⟩
  · rw [Visit.recordAll, (visitAll_laws _ _ (skips_recorder _) _ _).1, Call.trace_matched,
      Call.trace_nil]
    decide
  · exact (visitAll_laws _ _ (skips_recorder ["opaque"]) _ []).2.2.1

end Visitor

end Highlight
