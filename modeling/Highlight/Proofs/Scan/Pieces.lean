import Highlight.Proofs.Regex.Ways
import Highlight.Proofs.Scan.Cache
import Highlight.Proofs.Scan.Emission

/-!
Texts cut into lexemes. Where at each place the first pattern that does not fail leads over the next
lexeme, and all fail at the characters in between (`Outline.Cuts`), the matched nodes are the
lexemes, and the literal text is what stands between them (`Grammar.exists_nodes_of_cuts`).
-/

namespace Highlight

/-- A piece of a text: a lexeme, or a character that belongs to none. -/
inductive Piece where
  | gap (char : Char)
  | lexeme (name : String) (text : List Char)

/-- A lexeme and the offsets of its ends. -/
structure Span where
  name : String
  text : String
  start : Nat
  stop : Nat
deriving DecidableEq

namespace Piece

def text : Piece → List Char
  | .gap char => [char]
  | .lexeme _ text => text

def textOf (pieces : List Piece) : List Char :=
  pieces.flatMap text

def gaps (text : List Char) : List Piece :=
  text.map .gap

def gap? : Piece → Option Char
  | .gap char => some char
  | .lexeme _ _ => none

/-- The lexemes among some pieces, which stand at an offset. -/
def spans (offset : Nat) : List Piece → List Span
  | [] => []
  | .gap char :: rest => spans (offset + char.utf8Size) rest
  | .lexeme name text :: rest =>
      ⟨name, String.ofList text, offset, offset + Text.width text⟩ ::
        spans (offset + Text.width text) rest

@[simp] theorem textOf_nil : textOf [] = [] := rfl

@[simp] theorem textOf_cons (piece : Piece) (rest : List Piece) :
    textOf (piece :: rest) = piece.text ++ textOf rest := rfl

@[simp] theorem textOf_append (pieces rest : List Piece) :
    textOf (pieces ++ rest) = textOf pieces ++ textOf rest :=
  List.flatMap_append

@[simp] theorem filterMap_gap?_gaps (text : List Char) : (gaps text).filterMap gap? = text := by
  induction text with
  | nil => rfl
  | cons char text ih => exact congrArg (char :: ·) ih

@[simp] theorem textOf_gaps (text : List Char) : textOf (gaps text) = text := by
  induction text with
  | nil => rfl
  | cons char text ih => exact congrArg (char :: ·) ih

end Piece

def Matched.span (matched : Matched) : Span :=
  ⟨matched.name, matched.text, matched.range.start.toNat, matched.range.stop.toNat⟩

namespace Node

/-- The text of the literals among some nodes. -/
def literalText (nodes : List Node) : List Char :=
  (nodes.filter (·.isLiteral)).flatMap (·.text.toList)

@[simp] theorem literalText_append (nodes others : List Node) :
    literalText (nodes ++ others) = literalText nodes ++ literalText others := by
  simp [literalText]

@[simp] theorem literalText_literal (text : String) (range : TextRange) (nodes : List Node) :
    literalText (.literal text range :: nodes) = text.toList ++ literalText nodes := rfl

@[simp] theorem literalText_matched (matched : Matched) (nodes : List Node) :
    literalText (.matched matched :: nodes) = literalText nodes := rfl

/-- The literals among some nodes hold a text, and the matched ones have spans. -/
structure ConsistOf (nodes : List Node) (literals : List Char) (spans : List Span) : Prop where
  literals_eq : literalText nodes = literals
  spans_eq : (nodes.filterMap matched?).map Matched.span = spans

end Node

/-- What a scan needs to know of a pattern. -/
structure Outline where
  name : String
  lookbehind : Bool
  global : Bool
  expr : Regex.Expr
deriving DecidableEq

def Pattern.outline (name : String) (p : Pattern) : Outline :=
  ⟨name, p.lookbehind, p.global, p.regex.program.expr⟩

def Grammar.outlines (g : Grammar) : List Outline :=
  g.entries.map fun entry => entry.2.outline entry.1.name

namespace Outline

/-- Matches have no context, and are the same in every search. -/
def isPlain (o : Outline) : Bool :=
  !o.lookbehind && !o.expr.asksOrigin && !o.expr.keeps

/-- The first pattern that does not fail at a place leads to another one, and is not
repeated there. -/
def Takes (outlines : List Outline) (c : Cursor) (name : String) (d : Cursor) : Prop :=
  ∃ before o after, outlines = before ++ o :: after ∧ o.name = name ∧
    (∀ other ∈ before, other.expr.Fails c) ∧ o.expr.Leads c d ∧
    (o.global = true → o.expr.Fails d)

/-- Patterns cut the text between two places into pieces. -/
inductive Cuts (outlines : List Outline) : Cursor → List Piece → Cursor → Prop
  | nil (c : Cursor) : Cuts outlines c [] c
  | gap {c d e : Cursor} {char : Char} {pieces : List Piece} (reads : c.Reads [char] d)
      (fails : ∀ o ∈ outlines, o.expr.Fails c) (rest : Cuts outlines d pieces e) :
      Cuts outlines c (.gap char :: pieces) e
  | lexeme {c d e : Cursor} {name : String} {text : List Char} {pieces : List Piece}
      (reads : c.Reads text d) (ne_nil : text ≠ []) (takes : Takes outlines c name d)
      (rest : Cuts outlines d pieces e) : Cuts outlines c (.lexeme name text :: pieces) e

theorem Cuts.append {outlines : List Outline} {c d e : Cursor} {pieces others : List Piece}
    (h : Cuts outlines c pieces d) (h' : Cuts outlines d others e) :
    Cuts outlines c (pieces ++ others) e := by
  induction h with
  | nil => exact h'
  | gap hreads hfails _ ih => exact .gap hreads hfails (ih h')
  | lexeme hreads hne htakes _ ih => exact .lexeme hreads hne htakes (ih h')

end Outline

/-- The hit between two places, without context. -/
def Hit.between (c d : Cursor) (h : c.offset ≤ d.offset) : Hit :=
  ⟨c.offset, c.offset, d.offset, Nat.le_refl _, h⟩

namespace Pattern

variable {p : Pattern} {name : String} {c d : Cursor}

theorem isSteady_of_isPlain (h : (p.outline name).isPlain = true) : p.regex.isSteady = true := by
  simp only [Outline.isPlain, outline, Bool.and_eq_true] at h
  simp only [Regex.isSteady, Bool.and_eq_true]
  exact ⟨h.1.2, h.2⟩

theorem hitAt?_of_fails (h : p.regex.isSteady = true) (hfails : p.regex.program.expr.Fails c) :
    Plain.hitAt? (p.rule name) c = none := by
  have hhere : p.hitHere? c = none := by
    rw [hitHere?, Regex.Expr.matchAt?, hfails 0 _ some rfl]
    rfl
  rw [Option.eq_none_iff_forall_ne_some]
  rintro ⟨hit, d⟩ hhit
  obtain ⟨hfind, ⟨hstart, -⟩, -⟩ := Plain.hitAt?_eq_some_iff.mp hhit
  rw [rule_find] at hfind
  rw [hitHere?_of_hit? h hfind hstart] at hhere
  cases hhere

theorem hitAt?_of_hitHere? (h : p.regex.isSteady = true) {hit : Hit}
    (hhere : p.hitHere? c = some hit) (hemits : hit.emits = true) {front : List Char}
    (hread : c.readTo? hit.stop = some (front, d)) :
    Plain.hitAt? (p.rule name) c = some (hit, d) := by
  rw [Plain.hitAt?_eq_some_iff, rule_find]
  exact ⟨hit?_of_hitHere? h hhere, ⟨start_of_hitHere? h hhere, hemits⟩, front, hread⟩

/-- What matches from one place to another is a hit between them, if nothing of it is context. -/
theorem hitAt?_of_run (h : p.regex.isSteady = true) (hlookbehind : p.lookbehind = false)
    {q : Regex.Progress} (hrun : p.regex.program.expr.run 0 (.ofPlace c) some = some q)
    (hplace : q.place = d) {text : List Char} (hreads : c.Reads text d) (hne : text ≠ []) :
    Plain.hitAt? (p.rule name) c =
      some (.between c d (Cursor.offset_le_of_le hreads.le), d) := by
  subst hplace
  have hkeeps : p.regex.program.expr.keeps = false := by
    simp only [Regex.isSteady, Bool.and_eq_true, Bool.not_eq_true'] at h
    exact h.2
  have hkeep : q.keep = none := Regex.Expr.keep_run hkeeps hrun
  have hmin : min c.offset q.place.offset = c.offset :=
    Nat.min_eq_left (Cursor.offset_le_of_le hreads.le)
  have hhere : p.hitHere? c =
      some (.between c q.place (Cursor.offset_le_of_le hreads.le)) := by
    rw [hitHere?, Regex.Expr.matchAt?, hrun, hlookbehind]
    simp [Regex.Match.ofProgress, hkeep, Hit.ofMatch, Hit.contextEndOf, Hit.between, hmin]
  exact hitAt?_of_hitHere? h hhere (Hit.emits_iff.mpr (hreads.offset_lt hne)) hreads.readTo?

theorem hitAt?_of_leads (h : (p.outline name).isPlain = true)
    (hleads : p.regex.program.expr.Leads c d) {text : List Char} (hreads : c.Reads text d)
    (hne : text ≠ []) :
    Plain.hitAt? (p.rule name) c =
      some (.between c d (Cursor.offset_le_of_le hreads.le), d) := by
  have hlookbehind : p.lookbehind = false := by
    simp only [Outline.isPlain, outline, Bool.and_eq_true, Bool.not_eq_true'] at h
    exact h.1.1
  exact hitAt?_of_run (isSteady_of_isPlain h) hlookbehind
    (hleads 0 (.ofPlace c) some _ rfl rfl) rfl hreads hne

theorem contextEnd_of_hitAt? (hlookbehind : p.lookbehind = false) {hit : Hit}
    (h : Plain.hitAt? (p.rule name) c = some (hit, d)) : hit.contextEnd = hit.start := by
  obtain ⟨hfind, -⟩ := Plain.hitAt?_eq_some_iff.mp h
  rw [rule_find, hit?, Regex.hit?, hlookbehind] at hfind
  obtain ⟨m, -, rfl⟩ := Option.map_eq_some_iff.mp hfind
  rfl

/-- A hit takes at least as many characters as the expression does. -/
theorem left_add_least_le (h : p.regex.isSteady = true) {hit : Hit}
    (hhit : Plain.hitAt? (p.rule name) c = some (hit, d)) :
    d.left + p.regex.program.expr.least ≤ c.left := by
  obtain ⟨hfind, ⟨hstart, -⟩, front, hread⟩ := Plain.hitAt?_eq_some_iff.mp hhit
  rw [rule_find] at hfind
  obtain ⟨m, hmatch, rfl⟩ := Option.map_eq_some_iff.mp (hitHere?_of_hit? h hfind hstart)
  obtain ⟨r, hrun, rfl⟩ := Option.map_eq_some_iff.mp hmatch
  obtain ⟨hwithin, -⟩ := Regex.Expr.run_onward (Regex.Progress.within_ofPlace c) hrun
  obtain ⟨q, htakes, hsome⟩ := Regex.Expr.run_takes 0 _ (.ofPlace c) some r hrun
  cases hsome
  have hplace : d = r.place := Cursor.eq_of_text_eq
    ((Cursor.text_eq_of_le (Cursor.le_of_readTo? hread)).trans hwithin.place.symm)
    (Cursor.offset_of_readTo? hread)
  rw [hplace]
  exact htakes

end Pattern

namespace Plain

theorem firstAt?_of_none {rules : List Rule} {c : Cursor}
    (h : ∀ rule ∈ rules, hitAt? rule c = none) : firstAt? rules c = none := by
  induction rules with
  | nil => rfl
  | cons rule rules ih =>
      obtain ⟨hrule, hrules⟩ := List.forall_mem_cons.mp h
      rw [firstAt?_cons_of_nil (hits_of_hitAt?_eq_none hrule), ih hrules]

theorem firstAt?_of_append {before after : List Rule} {rule : Rule} {c d : Cursor} {hit : Hit}
    (h : ∀ other ∈ before, hitAt? other c = none) (hhits : hits rule c = ([hit], d)) :
    firstAt? (before ++ rule :: after) c = some (rule, [hit], d) := by
  induction before with
  | nil => exact firstAt?_cons_of_cons hhits
  | cons other before ih =>
      obtain ⟨hother, hbefore⟩ := List.forall_mem_cons.mp h
      rw [List.cons_append, firstAt?_cons_of_nil (hits_of_hitAt?_eq_none hother), ih hbefore]

end Plain

namespace Grammar

variable {g : Grammar} {c d : Cursor} {name : String} {text : List Char}

theorem firstAt?_of_fails (hplain : ∀ o ∈ g.outlines, o.isPlain = true)
    (h : ∀ o ∈ g.outlines, o.expr.Fails c) : Plain.firstAt? g.rules c = none := by
  apply Plain.firstAt?_of_none
  intro rule hrule
  rw [rules_eq_map_entries] at hrule
  obtain ⟨entry, hentry, rfl⟩ := List.mem_map.mp hrule
  have houtline : entry.2.outline entry.1.name ∈ g.outlines := List.mem_map_of_mem hentry
  exact Pattern.hitAt?_of_fails (Pattern.isSteady_of_isPlain (hplain _ houtline)) (h _ houtline)

theorem firstAt?_of_takes (hplain : ∀ o ∈ g.outlines, o.isPlain = true)
    (hreads : c.Reads text d) (hne : text ≠ []) (h : Outline.Takes g.outlines c name d) :
    ∃ rule, rule.token = name ∧ Plain.firstAt? g.rules c =
      some (rule, [.between c d (Cursor.offset_le_of_le hreads.le)], d) := by
  obtain ⟨before, o, after, houtlines, rfl, hbefore, hleads, hglobal⟩ := h
  obtain ⟨entries, others, hentries, rfl, hothers⟩ := List.map_eq_append_iff.mp houtlines
  obtain ⟨entry, rest, rfl, rfl, -⟩ := List.map_eq_cons_iff.mp hothers
  rw [houtlines] at hplain
  have hentry := hplain (entry.2.outline entry.1.name) (by simp)
  have hhit := Pattern.hitAt?_of_leads hentry hleads hreads hne
  refine ⟨entry.2.rule entry.1.name, Pattern.rule_token _ _, ?_⟩
  rw [rules_eq_map_entries, hentries, List.map_append, List.map_cons]
  apply Plain.firstAt?_of_append
  · intro rule hrule
    obtain ⟨other, hother, rfl⟩ := List.mem_map.mp hrule
    have houtline := List.mem_map_of_mem (f := fun e => e.2.outline e.1.name) hother
    have hsteady := Pattern.isSteady_of_isPlain (hplain _ (List.mem_append_left _ houtline))
    exact Pattern.hitAt?_of_fails hsteady (hbefore _ houtline)
  · rw [Plain.hits_of_hitAt?_eq_some hhit, Pattern.rule_global]
    split
    next hrepeats =>
      rw [Plain.hits_of_hitAt?_eq_none
        (Pattern.hitAt?_of_fails (Pattern.isSteady_of_isPlain hentry) (hglobal hrepeats))]
    next => rfl

open Forest in
theorem consistOf_of_literal {run : Run} {base : Nat} {nodes : List Node} (hsound : run.Sound)
    (hlt : base + Text.width run.place.text < UInt32.size) (h : run.literal base = .ok nodes) :
    Node.ConsistOf nodes run.text.reverse [] := by
  rcases Run.literal_cases hsound hlt with ⟨hnil, hok⟩ | ⟨range, -, hok⟩
  · cases hok.symm.trans h
    exact ⟨by rw [hnil]; rfl, rfl⟩
  · cases hok.symm.trans h
    refine ⟨?_, rfl⟩
    rw [Node.literalText_literal, String.toList_ofList]
    exact List.append_nil _

open Forest in
/-- The nodes of a text that is cut into pieces have the lexemes for matched nodes, and all other
characters, behind those of the run, for literal text. -/
theorem consistOf_of_cuts (hplain : ∀ o ∈ g.outlines, o.isPlain = true) {base : Nat}
    {pieces : List Piece} (hcuts : Outline.Cuts g.outlines c pieces d) (hend : d.after = [])
    (hlt : base + Text.width c.text < UInt32.size) {run : Run} (hsound : run.Sound)
    (hplace : run.place = c) {nodes : List Node}
    (h : Forest.build base run (Plain.steps g.rules c) = .ok nodes) :
    Node.ConsistOf nodes (run.text.reverse ++ pieces.filterMap Piece.gap?)
      (Piece.spans (base + c.offset) pieces) := by
  induction hcuts generalizing run nodes with
  | nil c =>
      subst hplace
      rw [Plain.steps_of_next?_eq_none (Cursor.next?_eq_none_iff.mpr hend)] at h
      simpa [Piece.spans] using consistOf_of_literal hsound hlt h
  | @gap c d e char pieces hreads hfails _ ih =>
      subst hplace
      have hnext := Cursor.reads_single_iff.mp hreads
      have htext : d.text = run.place.text := Cursor.text_eq_of_le hreads.le
      rw [Plain.steps_of_firstAt?_eq_none hnext (firstAt?_of_fails hplain hfails)] at h
      obtain ⟨run', hextend, hbuild⟩ := exists_of_bind_eq_ok h
      have hplace := hsound.place_of_extend_next hnext hextend
      obtain ⟨hliterals, hspans⟩ :=
        ih hend (htext ▸ hlt) (hsound.extend hextend).1 hplace hbuild
      have htaken : run'.text = char :: run.text := by
        rcases Run.eq_of_extend_eq_ok hextend with ⟨heq, -⟩ | ⟨front, range, -, hread, -, -, hrun⟩
        · exact absurd heq (Nat.ne_of_gt (hreads.offset_lt (by simp)))
        · rw [hreads.readTo?] at hread
          cases hread
          exact hrun
      refine ⟨?_, ?_⟩
      · rw [hliterals, htaken, List.reverse_cons, List.append_assoc]
        rfl
      · rw [hspans, hreads.offset_eq, Piece.spans, Text.width_cons, Text.width_nil, Nat.add_zero,
          Nat.add_assoc]
  | @lexeme c d e name text pieces hreads hne htakes _ ih =>
      subst hplace
      have htext : d.text = run.place.text := Cursor.text_eq_of_le hreads.le
      have hsome : ∃ char f, run.place.next? = some (char, f) := by
        obtain ⟨char, back, rfl⟩ := List.exists_cons_of_ne_nil hne
        obtain ⟨f, hfirst, -⟩ := hreads.exists_of_cons
        exact ⟨char, f, Cursor.reads_single_iff.mp hfirst⟩
      obtain ⟨char, f, hnext⟩ := hsome
      obtain ⟨rule, hname, hfirst⟩ := firstAt?_of_takes hplain hreads hne htakes
      rw [Plain.steps_of_firstAt?_eq_some hnext hfirst] at h
      obtain ⟨run', before, node, place, after, hextend, hbefore, htoken, hafter, rfl⟩ :=
        exists_of_build_take h
      -- Without context the run goes no further, and its literal comes before the lexeme.
      have hrun : run' = run := by
        rcases Run.eq_of_extend_eq_ok hextend with ⟨-, hrun⟩ | ⟨_, _, hoffset, -⟩
        · exact hrun
        · exact absurd rfl hoffset
      subst hrun
      obtain ⟨text', matched, rfl, hread, hmade⟩ := exists_tokenOf_of_token_eq_ok htoken
      have hread' : run'.place.readTo? d.offset = some (text', place) := hread
      rw [hreads.readTo?] at hread'
      cases hread'
      have hstop : base + d.offset < UInt32.size :=
        (Cursor.boundary_offset rfl).add_lt (htext ▸ hlt)
      obtain ⟨hstart, hend'⟩ :=
        ends_of_rangeAt_eq_ok (Cursor.offset_le_of_le hreads.le) hstop hmade.range_eq
      obtain ⟨hliterals, hspans⟩ := consistOf_of_literal hsound hlt hbefore
      obtain ⟨hliterals', hspans'⟩ := ih hend (htext ▸ hlt) (Run.sound_start d) rfl hafter
      have hmatched : matched.span = ⟨name, String.ofList text, base + run'.place.offset,
          base + run'.place.offset + Text.width text⟩ := by
        rw [hreads.offset_eq, ← Nat.add_assoc] at hend'
        simp only [Matched.span, hmade.name_eq, hname, hmade.text_eq, hstart, hend']
      refine ⟨?_, ?_⟩
      · rw [Node.literalText_append, Node.literalText_matched, hliterals, hliterals']
        rfl
      · have hcons : ((Node.matched matched :: after).filterMap Node.matched?).map Matched.span =
            matched.span :: (after.filterMap Node.matched?).map Matched.span := rfl
        rw [List.filterMap_append, List.map_append, hspans, hcons, hmatched, hspans',
          hreads.offset_eq, ← Nat.add_assoc]
        rfl

/-- If no pattern asks where a search started, a scan goes from one place to the next. -/
theorem steps_eq_plain (hsteady : ∀ entry ∈ g.entries, entry.2.regex.isSteady = true) :
    Scan.steps g.rules text = .ok (Plain.steps g.rules (.start text)) := by
  have hfind : ∀ rule ∈ g.rules, Steady rule.find := by
    intro rule hrule
    rw [rules_eq_map_entries] at hrule
    obtain ⟨entry, hentry, rfl⟩ := List.mem_map.mp hrule
    rw [Pattern.rule_find]
    exact Pattern.steady_of_isSteady (hsteady entry hentry)
  exact Scan.steps_eq_plain (fun _ => sound_of_mem_rules) hfind text

/-- The nodes of a text are then those for the steps of such a scan. -/
theorem exists_build (hsteady : ∀ entry ∈ g.entries, entry.2.regex.isSteady = true)
    (hwidth : Text.width text < UInt32.size) :
    ∃ nodes, g.tokenize (String.ofList text) = .ok nodes ∧
      Forest.build 0 (.start (.start text)) (Plain.steps g.rules (.start text)) = .ok nodes ∧
      TextRange.Tile 0 (nodes.map (·.range)) (Text.width text) := by
  obtain ⟨nodes, hnodes, hspells⟩ := g.spelling_rules 0 text (by rwa [Nat.zero_add])
  refine ⟨nodes, by rwa [tokenize, String.toList_ofList], ?_, ?_⟩
  · rwa [Forest.ofRules, steps_eq_plain hsteady] at hnodes
  · have htile := hspells.tile
    rwa [Nat.zero_add] at htile

/-- A text that the patterns of a grammar cut into pieces has the lexemes for matched nodes and
the characters in between for literal text, in nodes that follow one another. -/
theorem exists_nodes_of_cuts (hplain : ∀ o ∈ g.outlines, o.isPlain = true) {pieces : List Piece}
    (hwidth : Text.width (Piece.textOf pieces) < UInt32.size) (hend : d.after = [])
    (hcuts : Outline.Cuts g.outlines (.start (Piece.textOf pieces)) pieces d) :
    ∃ nodes, g.tokenize (String.ofList (Piece.textOf pieces)) = .ok nodes ∧
      (nodes.filterMap Node.matched?).map Matched.span = Piece.spans 0 pieces ∧
      Node.literalText nodes = pieces.filterMap Piece.gap? ∧
      TextRange.Tile 0 (nodes.map (·.range)) (Text.width (Piece.textOf pieces)) := by
  have hsteady : ∀ entry ∈ g.entries, entry.2.regex.isSteady = true := fun entry hentry =>
    Pattern.isSteady_of_isPlain (hplain _ (List.mem_map_of_mem hentry))
  obtain ⟨nodes, hnodes, hbuild, htile⟩ := exists_build hsteady hwidth
  obtain ⟨hliterals, hspans⟩ := consistOf_of_cuts hplain hcuts hend
    (by rwa [Cursor.start_text, Nat.zero_add]) (Forest.Run.sound_start _) rfl hbuild
  exact ⟨nodes, hnodes, hspans, hliterals, htile⟩

end Grammar

end Highlight
