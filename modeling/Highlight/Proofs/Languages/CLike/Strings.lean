import Highlight.Proofs.Languages.CLike.Lexemes
import Highlight.Proofs.Languages.Requests
import Highlight.Proofs.Scan.Opening

/-!
Strings in the languages like C. What stands in quotes is a string token, unless a comment opens
right behind the first quote: that quote is taken for the context of the comment
(`tokenize_inQuotes`).
-/

namespace Highlight

open Regex Regex.Expr

namespace Languages.CLike

/-- A comment opens at the start of a text. -/
def OpensComment (text : List Char) : Prop :=
  ['/', '*'] <+: text ∨ ['/', '/'] <+: text

instance (text : List Char) : Decidable (OpensComment text) :=
  inferInstanceAs (Decidable (['/', '*'] <+: text ∨ ['/', '/'] <+: text))

/-- The patterns of the grammar come in this order, those for comments and strings first. -/
structure Begins (g : Grammar) (block line quoted : Token × Pattern)
    (rest : List (Token × Pattern)) : Prop where
  entries_eq : g.entries = block :: line :: quoted :: rest
  steady : ∀ entry ∈ g.entries, entry.2.regex.isSteady = true
  block_eq : block.2.outline block.1.name = blockComment
  line_eq : line.2.outline line.1.name = lineComment
  quoted_eq : quoted.2.outline quoted.1.name = string
  label_eq : quoted.2.label = none
  inside_eq : quoted.2.inside = none

theorem exists_grammar :
    ∃ g block line quoted rest, grammar = .ok g ∧ Begins g block line quoted rest := by
  have hcheck : grammar.toOption.map (fun g => (g.outlines.take 3,
      (g.entries.drop 2).head?.map fun entry => (entry.2.label, entry.2.inside.isNone),
      g.entries.all fun entry => entry.2.regex.isSteady)) =
      some ([blockComment, lineComment, string], some (none, true), true) := by decide +kernel
  obtain ⟨g, hg, hfacts⟩ := Option.map_eq_some_iff.mp hcheck
  simp only [Prod.mk.injEq, List.all_eq_true, Grammar.outlines] at hfacts
  obtain ⟨houtlines, hinside, hsteady⟩ := hfacts
  match hentries : g.entries with
  | block :: line :: quoted :: rest =>
      simp only [hentries, List.map_cons, List.take_succ_cons, List.take_zero, List.cons.injEq,
        and_true, List.drop_succ_cons, List.drop_zero, List.head?_cons, Option.map_some,
        Option.some.injEq, Prod.mk.injEq, Option.isNone_iff_eq_none] at houtlines hinside
      exact ⟨g, block, line, quoted, rest, eq_ok_of_toOption_eq_some hg, hentries, hsteady,
        houtlines.1, houtlines.2.1, houtlines.2.2, hinside.1, hinside.2⟩
  | [] | [_] | [_, _] => simp [hentries] at houtlines

theorem exists_tokenizeBy_of_grammar {g : Grammar} {text : String} {nodes : List Node}
    (hgrammar : grammar = .ok g) (hnodes : g.tokenize text = .ok nodes) :
    ∃ r, registry.run (Session.tokenizeBy "clike" text) = some (.ok (.ok nodes), r) := by
  have hbuilt : build? "clike" = some (Build.ofExcept (.ok g)) := by
    rw [build?, hgrammar]
  exact exists_tokenizeBy hbuilt rfl hnodes

section Texts

variable {g : Grammar} {block line quoted : Token × Pattern} {rest : List (Token × Pattern)}
  {content : List Char} {c d : Cursor}

/-- What a comment opens with in front of a quote, it opens with by itself. -/
theorem prefix_of_prefix_concat {first second : Char} (hsecond : second ≠ '"')
    (h : [first, second] <+: content ++ ['"']) : [first, second] <+: content := by
  match content with
  | [] => simp at h
  | [_] =>
      simp only [List.cons_append, List.nil_append, List.cons_prefix_cons] at h
      exact absurd h.2.1 hsecond
  | _ :: _ :: others => simpa using h

theorem hits_quoted (hg : Begins g block line quoted rest) (hplain : IsPlain content)
    (h : c.Reads ('"' :: (content ++ ['"'])) d) (hend : d.after = []) :
    Plain.hits (quoted.2.rule quoted.1.name) c =
      ([.between c d (Cursor.offset_le_of_le h.le)], d) := by
  have hsteady := hg.steady quoted (by simp [hg.entries_eq])
  have hlookbehind : quoted.2.lookbehind = false := congrArg Outline.lookbehind hg.quoted_eq
  have hexpr : quoted.2.regex.program.expr = string.expr := congrArg Outline.expr hg.quoted_eq
  obtain ⟨q, hplace, hrun⟩ := run_string hplain h 0 some
  rw [← hexpr] at hrun
  have hhit : Plain.hitAt? (quoted.2.rule quoted.1.name) c =
      some (.between c d (Cursor.offset_le_of_le h.le), d) :=
    Pattern.hitAt?_of_run hsteady hlookbehind hrun hplace h (by simp)
  have hagain : Plain.hitAt? (quoted.2.rule quoted.1.name) d = none := by
    refine Pattern.hitAt?_of_fails hsteady (fails_of_opens ?_)
    rw [hexpr, codeAfter?, hend]
    decide
  rw [Plain.hits_of_hitAt?_eq_some hhit, Plain.hits_of_hitAt?_eq_none hagain, ite_self]

theorem firstAt?_of_string (hg : Begins g block line quoted rest) (hplain : IsPlain content)
    (hopens : ¬ OpensComment content) (h : c.Reads ('"' :: (content ++ ['"'])) d)
    (hend : d.after = []) :
    Plain.firstAt? g.rules c = some (quoted.2.rule quoted.1.name,
      [.between c d (Cursor.offset_le_of_le h.le)], d) := by
  obtain ⟨e, hquote, hrest⟩ := h.exists_of_cons
  have hnone {second : Char} (hsecond : second ≠ '"') (hnone : ¬ ['/', second] <+: content)
      (f : Cursor) : ¬ e.Reads ['/', second] f := by
    intro hreads
    have hafter := hreads.after.symm.trans hrest.after
    rw [hend, List.append_nil] at hafter
    exact hnone (prefix_of_prefix_concat hsecond ⟨f.after, hafter⟩)
  have hhere {second : Char} : ∀ f, ¬ c.Reads ['/', second] f :=
    not_reads_of_reads hquote (by decide)
  have hblock : Plain.hitAt? (block.2.rule block.1.name) c = none :=
    hitAt?_of_comment (hg.steady block (by simp [hg.entries_eq])) hg.block_eq (by decide) hquote
      hhere (hnone (by decide) fun hprefix => hopens (.inl hprefix))
  have hline : Plain.hitAt? (line.2.rule line.1.name) c = none :=
    hitAt?_of_comment (hg.steady line (by simp [hg.entries_eq])) hg.line_eq (by decide) hquote
      hhere (hnone (by decide) fun hprefix => hopens (.inr hprefix))
  rw [Grammar.rules_eq_map_entries, hg.entries_eq]
  show Plain.firstAt? ([block.2.rule block.1.name, line.2.rule line.1.name] ++
    quoted.2.rule quoted.1.name :: rest.map _) c = _
  exact Plain.firstAt?_of_append (by simp [hblock, hline]) (hits_quoted hg hplain h hend)

theorem firstAt?_of_comment (hg : Begins g block line quoted rest) (hopens : OpensComment content)
    {e : Cursor} (hquote : c.Reads ['"'] e) (h : e.Reads content d) :
    ∃ rule hit f, rule.token = "comment" ∧ Plain.firstAt? g.rules c = some (rule, [hit], f) ∧
      hit.contextEnd = e.offset := by
  have hblockSteady := hg.steady block (by simp [hg.entries_eq])
  rw [Grammar.rules_eq_map_entries, hg.entries_eq]
  rcases hopens with ⟨back, rfl⟩ | ⟨back, rfl⟩
  · obtain ⟨f, hopening, -⟩ := h.exists_of_append
    obtain ⟨k, hle, hrest⟩ :=
      exists_run_of_quiet quiet_blockRest (isSome_blockRest 0) (captured c e) f
    obtain ⟨hit, hhits, -, hcontext⟩ := exists_hits_of_comment hblockSteady hg.block_eq (by decide)
      hquote (not_reads_of_reads hquote (by decide)) hopening hle hrest
    refine ⟨_, hit, k, ?_, Plain.firstAt?_cons_of_cons hhits, hcontext⟩
    rw [Pattern.rule_token]
    exact congrArg Outline.name hg.block_eq
  · obtain ⟨f, hopening, -⟩ := h.exists_of_append
    have hnone : ∀ d, ¬ e.Reads ['/', '*'] d := by
      intro d hreads
      have hafter := hopening.after.symm.trans hreads.after
      simp at hafter
    have hhere {second : Char} : ∀ f, ¬ c.Reads ['/', second] f :=
      not_reads_of_reads hquote (by decide)
    have hblock := hitAt?_of_comment hblockSteady hg.block_eq (by decide) hquote hhere hnone
    obtain ⟨k, hle, hrest⟩ :=
      exists_run_of_quiet quiet_lineRest (isSome_lineRest 0) (captured c e) f
    obtain ⟨hit, hhits, -, hcontext⟩ := exists_hits_of_comment
      (hg.steady line (by simp [hg.entries_eq])) hg.line_eq (by decide) hquote hhere hopening hle
      hrest
    refine ⟨line.2.rule line.1.name, hit, k, ?_, ?_, hcontext⟩
    · rw [Pattern.rule_token]
      exact congrArg Outline.name hg.line_eq
    · rw [List.map_cons, Plain.firstAt?_cons_of_nil (Plain.hits_of_hitAt?_eq_none hblock)]
      exact Plain.firstAt?_cons_of_cons hhits

end Texts

def inQuotes (content : String) : String :=
  "\"" ++ content ++ "\""

theorem toList_inQuotes (content : String) :
    (inQuotes content).toList = '"' :: (content.toList ++ ['"']) := by
  simp [inQuotes]

theorem width_inQuotes (content : String) :
    Text.width (inQuotes content).toList = Text.width content.toList + 2 := by
  rw [toList_inQuotes, Text.width_cons, Text.width_append]
  have hquote : Text.width ['"'] = 1 := rfl
  have hsize : '"'.utf8Size = 1 := rfl
  omega

/-- A text in quotes, as it is read, and its nodes, as its scan goes. -/
theorem exists_build {content : String} (hwidth : Text.width content.toList + 2 < UInt32.size) :
    ∃ g block line quoted rest nodes r c d, Begins g block line quoted rest ∧
      registry.run (Session.tokenizeBy "clike" (inQuotes content)) = some (.ok (.ok nodes), r) ∧
      c = Cursor.start (inQuotes content).toList ∧
      c.Reads ('"' :: (content.toList ++ ['"'])) d ∧ d.after = [] ∧
      Forest.build 0 (.start c) (Plain.steps g.rules c) = .ok nodes := by
  rw [← width_inQuotes] at hwidth
  obtain ⟨g, block, line, quoted, rest, hgrammar, hg⟩ := exists_grammar
  obtain ⟨nodes, hnodes, hbuild, -⟩ := Grammar.exists_build hg.steady hwidth
  rw [String.ofList_toList] at hnodes
  obtain ⟨r, hrun⟩ := exists_tokenizeBy_of_grammar hgrammar hnodes
  have hafter : (Cursor.start (inQuotes content).toList).after =
      ('"' :: (content.toList ++ ['"'])) ++ [] := by
    rw [List.append_nil, ← toList_inQuotes]
    rfl
  obtain ⟨d, hreads, hend⟩ := Cursor.exists_reads hafter
  exact ⟨g, block, line, quoted, rest, nodes, r, _, d, hg, hrun, rfl, hreads, hend, hbuild⟩

/-- A comment that opens behind the first quote takes that for its context. -/
theorem exists_comment {content : String} (hopens : OpensComment content.toList)
    (hwidth : Text.width content.toList + 2 < UInt32.size) :
    ∃ r range comment rest, comment.name = "comment" ∧
      registry.run (Session.tokenizeBy "clike" (inQuotes content)) =
        some (.ok (.ok (.literal "\"" range :: .matched comment :: rest)), r) := by
  obtain ⟨g, block, line, quoted, rest, nodes, r, c, d, hg, hrun, hc, hreads, -, hbuild⟩ :=
    exists_build hwidth
  obtain ⟨e, hquote, hrest⟩ := hreads.exists_of_cons
  obtain ⟨f, hinside, -⟩ := hrest.exists_of_append
  obtain ⟨rule, hit, f, htoken, hfirst, hcontext⟩ :=
    firstAt?_of_comment hg hopens hquote hinside
  have hlt : 0 + Text.width c.text < UInt32.size := by
    rwa [hc, Cursor.start_text, Nat.zero_add, width_inQuotes]
  obtain ⟨range, comment, others, hname, rfl⟩ := Forest.exists_literal_of_build
    (Cursor.reads_single_iff.mp hquote) hfirst hquote (by simp) hcontext hlt hbuild
  exact ⟨r, range, comment, others, hname.trans htoken, hrun⟩

/-- Without such a comment, the text is a string. -/
theorem exists_string {content : String} (hplain : IsPlain content.toList)
    (hopens : ¬ OpensComment content.toList)
    (hwidth : Text.width content.toList + 2 < UInt32.size) :
    ∃ r range, range.start.toNat = 0 ∧ range.stop.toNat = Text.width content.toList + 2 ∧
      registry.run (Session.tokenizeBy "clike" (inQuotes content)) =
        some (.ok (.ok [.matched ⟨"string", none, inQuotes content, range, []⟩]), r) := by
  obtain ⟨g, block, line, quoted, rest, nodes, r, c, d, hg, hrun, hc, hreads, hend, hbuild⟩ :=
    exists_build hwidth
  obtain ⟨e, hquote, -⟩ := hreads.exists_of_cons
  have hfirst := firstAt?_of_string hg hplain hopens hreads hend
  obtain ⟨⟨name, label, text, range, children⟩, rfl, hmade⟩ := Forest.exists_matched_of_build
    hreads (Cursor.reads_single_iff.mp hquote) hfirst hend hbuild
  have hname : name = "string" := by
    have hrule : (quoted.2.outline quoted.1.name).name = "string" := by rw [hg.quoted_eq]; rfl
    exact hmade.name_eq.trans ((Pattern.rule_token _ _).trans hrule)
  have hlabel : label = none :=
    hmade.label_eq.trans ((Pattern.rule_label _ _).trans hg.label_eq)
  have htext : text = inQuotes content := by
    rw [← String.ofList_toList (s := inQuotes content), toList_inQuotes]
    exact hmade.text_eq
  have hchildren : children = [] := by
    refine hmade.childless ?_
    rw [Pattern.rule_inside, hg.inside_eq]
    rfl
  subst hname hlabel htext hchildren
  have hoffset : c.offset = 0 := by rw [hc]; rfl
  have hwhole : d.offset = Text.width content.toList + 2 := by
    rw [hreads.offset_eq, hoffset, Nat.zero_add, ← toList_inQuotes, width_inQuotes]
  have hends : range.start.toNat = 0 + c.offset ∧ range.stop.toNat = 0 + d.offset :=
    Forest.ends_of_rangeAt_eq_ok (Cursor.offset_le_of_le hreads.le) (by omega) hmade.range_eq
  exact ⟨r, range, by omega, by omega, hrun⟩

/-- What is in quotes is one string token, unless a comment opens behind the first quote. Then the
comment comes first, with the quote for literal text in front of it. -/
theorem tokenize_inQuotes {content : String} (hplain : IsPlain content.toList)
    (hwidth : Text.width content.toList + 2 < UInt32.size) :
    ∃ nodes r,
      registry.run (Session.tokenizeBy "clike" (inQuotes content)) = some (.ok (.ok nodes), r) ∧
      (¬ OpensComment content.toList → ∃ range : TextRange, range.start.toNat = 0 ∧
        range.stop.toNat = Text.width content.toList + 2 ∧
        nodes = [.matched ⟨"string", none, inQuotes content, range, []⟩]) ∧
      (OpensComment content.toList → ∃ range comment rest, comment.name = "comment" ∧
        nodes = .literal "\"" range :: .matched comment :: rest) := by
  by_cases hopens : OpensComment content.toList
  · obtain ⟨r, range, comment, rest, hname, hrun⟩ := exists_comment hopens hwidth
    exact ⟨_, r, hrun, absurd hopens, fun _ => ⟨range, comment, rest, hname, rfl⟩⟩
  · obtain ⟨r, range, hstart, hstop, hrun⟩ := exists_string hplain hopens hwidth
    exact ⟨_, r, hrun, fun _ => ⟨range, hstart, hstop, rfl⟩, (absurd · hopens)⟩

theorem tokenize_inQuotes_slashes :
    IsPlain "a//b".toList ∧ ∃ r range,
      registry.run (Session.tokenizeBy "clike" (inQuotes "a//b")) =
        some (.ok (.ok [.matched ⟨"string", none, "\"a//b\"", range, []⟩]), r) := by
  have hplain : IsPlain "a//b".toList := by decide
  obtain ⟨nodes, r, hrun, hstring, -⟩ := tokenize_inQuotes hplain (by decide)
  obtain ⟨range, -, -, rfl⟩ := hstring (by decide)
  exact ⟨hplain, r, range, hrun⟩

theorem not_tokenize_inQuotes_of_comment :
    ¬ ∀ content : String, IsPlain content.toList → ∃ r range,
      registry.run (Session.tokenizeBy "clike" (inQuotes content)) =
        some (.ok (.ok [.matched ⟨"string", none, inQuotes content, range, []⟩]), r) := by
  intro h
  obtain ⟨r, range, hstring⟩ := h "//x" (by decide)
  have hopens : OpensComment "//x".toList := by decide
  obtain ⟨r', range', comment, rest, -, hcomment⟩ := exists_comment hopens (by decide)
  have hsame := hstring.symm.trans hcomment
  simp at hsame

end Languages.CLike

end Highlight
