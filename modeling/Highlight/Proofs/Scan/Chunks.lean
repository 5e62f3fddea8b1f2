import Highlight.Proofs.Scan.Ending
import Highlight.Proofs.Scan.Pieces

/-!
Nodes without children, one by one. A character at which all patterns fail goes to the literal that
is under way (`Grammar.exists_of_build_fails`). A pattern that takes the text up to a place ends
this literal and makes a token of the text (`Grammar.exists_of_build_takes`).
-/

namespace Highlight

/-- A node without children: literal text, or a token with a name and a label. -/
structure Chunk where
  token : Option (String × Option String)
  text : String
  start : Nat
  stop : Nat
deriving DecidableEq

namespace Chunk

def ofText (token : Option (String × Option String)) (offset : Nat) (text : List Char) : Chunk :=
  ⟨token, String.ofList text, offset, offset + Text.width text⟩

/-- The literal for some text at an offset, if there is any. -/
def literals (offset : Nat) (text : List Char) : List Chunk :=
  if text = [] then [] else [ofText none offset text]

end Chunk

namespace Node

/-- What a node is, if it has no children. -/
def chunk? : Node → Option Chunk
  | .literal text range => some ⟨none, text, range.start.toNat, range.stop.toNat⟩
  | .matched token =>
      if token.children.isEmpty then
        some ⟨some (token.name, token.label), token.text, token.range.start.toNat,
          token.range.stop.toNat⟩
      else none

theorem of_chunk?_eq_some {node : Node} {chunk : Chunk} (h : node.chunk? = some chunk) :
    node.text = chunk.text ∧ node.isLiteral = chunk.token.isNone := by
  cases node with
  | literal text range =>
      cases h
      exact ⟨rfl, rfl⟩
  | matched token =>
      rw [chunk?, Option.ite_none_right_eq_some] at h
      cases h.2
      exact ⟨rfl, rfl⟩

theorem of_map_chunk? {nodes : List Node} {chunks : List Chunk}
    (h : nodes.map chunk? = chunks.map some) :
    nodes.map Node.text = chunks.map (·.text) ∧
      ∀ node ∈ nodes, ∃ chunk ∈ chunks, node.isLiteral = chunk.token.isNone := by
  induction nodes generalizing chunks with
  | nil =>
      obtain rfl := List.map_eq_nil_iff.mp h.symm
      simp
  | cons node nodes ih =>
      obtain ⟨chunk, others, rfl, hchunk, hothers⟩ := List.map_eq_cons_iff.mp h.symm
      obtain ⟨htext, hliteral⟩ := of_chunk?_eq_some hchunk.symm
      obtain ⟨htexts, hliterals⟩ := ih hothers.symm
      constructor
      · rw [List.map_cons, List.map_cons, htext, htexts]
      · refine List.forall_mem_cons.mpr ⟨⟨chunk, List.mem_cons_self, hliteral⟩, ?_⟩
        intro other hother
        obtain ⟨found, hfound, heq⟩ := hliterals other hother
        exact ⟨found, List.mem_cons_of_mem _ hfound, heq⟩

end Node

/-- The literal of a run, if it has any text. -/
theorem Forest.Run.map_chunk?_of_literal {run : Run} {base : Nat} {nodes : List Node}
    (hsound : run.Sound) (hlt : base + Text.width run.place.text < UInt32.size)
    (h : run.literal base = .ok nodes) :
    nodes.map Node.chunk? =
      (Chunk.literals (base + run.first.offset) run.text.reverse).map some := by
  rcases literal_cases hsound hlt with ⟨hnil, hok⟩ | ⟨range, ⟨hne, hstart, hstop⟩, hok⟩
  · cases hok.symm.trans h
    rw [hnil]
    rfl
  · cases hok.symm.trans h
    have hne' : run.text.reverse ≠ [] := by simpa using hne
    rw [Chunk.literals, if_neg hne', List.map_singleton, List.map_singleton, Node.chunk?, hstart,
      hstop, hsound.offset_eq, Chunk.ofText, Nat.add_assoc]

namespace Outline

variable {outlines : List Outline} {o : Outline} {c d : Cursor} {char : Char} {rest : List Char}

/-- The first pattern that can begin with the character at a place takes what it leads over, if it
is not repeated. -/
theorem takes_of_find? (hcode : Regex.codeAfter? c = some char.toNat)
    (hfind : outlines.find? (·.expr.opens (some char.toNat)) = some o) (hleads : o.expr.Leads c d)
    (hglobal : o.global = false) : Takes outlines c o.name d := by
  obtain ⟨-, before, after, houtlines, hbefore⟩ := List.find?_eq_some_iff_append.mp hfind
  refine ⟨before, o, after, houtlines, rfl, ?_, hleads, by simp [hglobal]⟩
  intro other hother
  apply Regex.Expr.fails_of_opens
  rw [hcode]
  simpa using hbefore other hother

end Outline

namespace Grammar

open Forest

variable {g : Grammar} {base : Nat} {run : Run} {d : Cursor} {char : Char} {name : String}
  {text : List Char} {nodes : List Node}

theorem exists_of_build_fails (hplain : ∀ o ∈ g.outlines, o.isPlain = true) (hsound : run.Sound)
    (hreads : run.place.Reads [char] d) (hfails : ∀ o ∈ g.outlines, o.expr.Fails run.place)
    (h : Forest.build base run (Plain.steps g.rules run.place) = .ok nodes) :
    ∃ run' : Run, run'.Sound ∧ run'.first = run.first ∧ run'.text = char :: run.text ∧
      run'.place = d ∧ Forest.build base run' (Plain.steps g.rules d) = .ok nodes := by
  have hnext := Cursor.reads_single_iff.mp hreads
  rw [Plain.steps_of_firstAt?_eq_none hnext (firstAt?_of_fails hplain hfails)] at h
  obtain ⟨run', hextend, hbuild⟩ := exists_of_bind_eq_ok h
  obtain ⟨hsound', hfirst, -⟩ := hsound.extend hextend
  refine ⟨run', hsound', hfirst, ?_, hsound.place_of_extend_next hnext hextend, hbuild⟩
  rcases Run.eq_of_extend_eq_ok hextend with ⟨heq, -⟩ | ⟨front, range, -, hread, -, -, htaken⟩
  · exact absurd heq (Nat.ne_of_gt (hreads.offset_lt (by simp)))
  · rw [hreads.readTo?] at hread
    cases hread
    exact htaken

theorem exists_of_build_takes (hplain : ∀ o ∈ g.outlines, o.isPlain = true)
    (hinside : ∀ entry ∈ g.entries, entry.2.inside = none)
    (hlt : base + Text.width run.place.text < UInt32.size) (hreads : run.place.Reads text d)
    (hne : text ≠ []) (htakes : Outline.Takes g.outlines run.place name d)
    (h : Forest.build base run (Plain.steps g.rules run.place) = .ok nodes) :
    ∃ entry ∈ g.entries, entry.1.name = name ∧ ∃ before node after,
      nodes = before ++ node :: after ∧ run.literal base = .ok before ∧
      node.chunk? = some (.ofText (some (name, entry.2.label)) (base + run.place.offset) text) ∧
      Forest.build base (.start d) (Plain.steps g.rules d) = .ok after := by
  have hsome : ∃ char e, run.place.next? = some (char, e) := by
    obtain ⟨char, back, rfl⟩ := List.exists_cons_of_ne_nil hne
    obtain ⟨e, hfirst, -⟩ := hreads.exists_of_cons
    exact ⟨char, e, Cursor.reads_single_iff.mp hfirst⟩
  obtain ⟨char, e, hnext⟩ := hsome
  obtain ⟨rule, hname, hfirst⟩ := firstAt?_of_takes hplain hreads hne htakes
  have hrule := Plain.mem_of_firstAt? hfirst
  rw [rules_eq_map_entries] at hrule
  obtain ⟨entry, hentry, rfl⟩ := List.mem_map.mp hrule
  rw [Pattern.rule_token] at hname
  rw [Plain.steps_of_firstAt?_eq_some hnext hfirst] at h
  obtain ⟨run', before, node, place, after, hextend, hbefore, htoken, hafter, rfl⟩ :=
    exists_of_build_take h
  -- Without context the run goes no further, and its literal comes before the token.
  obtain rfl : run' = run := by
    rcases Run.eq_of_extend_eq_ok hextend with ⟨-, hrun⟩ | ⟨_, _, hoffset, -⟩
    · exact hrun
    · exact absurd rfl hoffset
  obtain ⟨text', matched, rfl, hread, hmade⟩ := exists_tokenOf_of_token_eq_ok htoken
  have hread' : run'.place.readTo? d.offset = some (text', place) := hread
  rw [hreads.readTo?] at hread'
  cases hread'
  have hstop : base + d.offset < UInt32.size := by
    have htext : d.text = run'.place.text := Cursor.text_eq_of_le hreads.le
    exact (Cursor.boundary_offset rfl).add_lt (htext ▸ hlt)
  have hchildren : matched.children = [] := by
    apply hmade.childless
    rw [Pattern.rule_inside, hinside entry hentry]
    rfl
  obtain ⟨hstart, hend⟩ : matched.range.start.toNat = base + run'.place.offset ∧
      matched.range.stop.toNat = base + d.offset :=
    ends_of_rangeAt_eq_ok (Cursor.offset_le_of_le hreads.le) hstop hmade.range_eq
  refine ⟨entry, hentry, hname, before, .matched matched, after, rfl, hbefore, ?_, hafter⟩
  rw [Node.chunk?, hchildren, hmade.name_eq, hmade.label_eq, hmade.text_eq, hstart, hend,
    Pattern.rule_token, Pattern.rule_label, hname, hreads.offset_eq, Chunk.ofText, Nat.add_assoc]
  rfl

end Grammar

end Highlight
