import Highlight.Proofs.Languages.CLike.Strings
import Highlight.Proofs.Scan.Ending
import Highlight.Proofs.Scan.Extension

/-!
Line comments behind code in the languages like C. The slashes open a comment only if the character
in front of them is left for its context. So it depends on how the code by itself ends whether a
comment follows: with a literal or a token of one character, or with a longer token, behind which
the slashes are missed (`tokenize_lineComment`).
-/

namespace Highlight

open Regex Regex.Expr

namespace Languages.CLike

/-- Code without quotes, backslashes, colons and slashes. -/
def IsBare (code : List Char) : Prop :=
  ∀ char ∈ code, char ∉ ['"', '\x27', '\\', ':', '/']

instance (code : List Char) : Decidable (IsBare code) :=
  List.decidableBAll _ code

/-- The last character of a text is in a literal, or makes a token by itself. -/
def LeaveContext (nodes : List Node) : Prop :=
  ∃ last, nodes.getLast? = some last ∧
    (last.isLiteral = true ∨ last.text.length = 1 ∧ last.name? ≠ some "class-name")

def EndInComment (nodes : List Node) (text : String) : Prop :=
  ∃ comment, nodes.getLast? = some (.matched comment) ∧ comment.name = "comment" ∧
    comment.text = text

/-- A pattern that is not for comments or strings. It takes no slash behind other characters, and
only the one for class names has a context. -/
structure IsCode (entry : Token × Pattern) : Prop where
  global_eq : entry.2.global = false
  overlooks : entry.2.regex.program.expr.overlooks '/'.toNat true = true
  name_ne : entry.1.name ≠ "comment"
  context : entry.1.name ≠ "class-name" → entry.2.lookbehind = false
  two_le : entry.1.name = "class-name" → 2 ≤ entry.2.regex.program.expr.least

theorem exists_grammar_isCode :
    ∃ g block line quoted rest, grammar = .ok g ∧ Begins g block line quoted rest ∧
      ∀ entry ∈ rest, IsCode entry := by
  obtain ⟨g, block, line, quoted, rest, hgrammar, hg⟩ := exists_grammar
  have hcheck : grammar.toOption.map (fun g => (g.entries.drop 3).all fun entry =>
      !entry.2.global && entry.2.regex.program.expr.overlooks '/'.toNat true &&
        entry.1.name != "comment" &&
        (if entry.1.name = "class-name" then decide (2 ≤ entry.2.regex.program.expr.least)
          else !entry.2.lookbehind)) = some true := by decide +kernel
  refine ⟨g, block, line, quoted, rest, hgrammar, hg, fun entry hentry => ?_⟩
  simp only [hgrammar, Except.toOption, hg.entries_eq, Option.map_some, Option.some.injEq,
    List.drop_succ_cons, List.drop_zero, List.all_eq_true, Bool.and_eq_true] at hcheck
  obtain ⟨⟨⟨hglobal, hoverlooks⟩, hname⟩, hcontext⟩ := hcheck entry hentry
  refine ⟨by simpa using hglobal, hoverlooks, by simpa using hname, fun hne => ?_, fun heq => ?_⟩
  · simpa [hne] using hcontext
  · simpa [heq] using hcontext

theorem run_lineRest {c d : Cursor} {remark : List Char} (hremark : '\n' ∉ remark)
    (h : c.Reads remark d) (hend : d.after = []) (p : Progress) :
    lineRest.run 0 (p.moved c) some = some (p.moved d) := by
  have hrest : ∀ char ∈ remark,
      (CharClass.compl (.single '\n'.toNat)).contains char.toNat = true := by
    intro char hchar
    rw [CharClass.contains, CharClass.contains_single, Bool.not_eq_true', beq_eq_false_iff_ne]
    intro heq
    exact hremark (Char.toNat_inj.mp heq ▸ hchar)
  have hrounds := rounds_one h hrest (by rw [codeAfter?, hend]; rfl)
  exact hrounds.leads_star 0 (p.moved c) some _ rfl rfl

section Rules

variable {g : Grammar} {block line quoted : Token × Pattern} {rest : List (Token × Pattern)}
  (hg : Begins g block line quoted rest) {c d e : Cursor} {char : Char}

include hg

theorem exists_entry {rule : Rule} (h : rule ∈ g.rules) :
    ∃ entry ∈ g.entries, (entry ∈ [block, line, quoted] ∨ entry ∈ rest) ∧
      entry.2.rule entry.1.name = rule := by
  rw [Grammar.rules_eq_map_entries] at h
  obtain ⟨entry, hentry, rfl⟩ := List.mem_map.mp h
  refine ⟨entry, hentry, ?_, rfl⟩
  rw [hg.entries_eq] at hentry
  exact List.mem_append.mp (show entry ∈ [block, line, quoted] ++ rest from hentry)

section Bare

variable (hchar : char ∉ ['"', '\x27', '\\', ':', '/']) (hfirst : c.Reads [char] d)

include hchar hfirst

theorem hitAt?_block (h : ∀ e, ¬ d.Reads ['/', '*'] e) :
    Plain.hitAt? (block.2.rule block.1.name) c = none := by
  simp only [List.mem_cons, List.not_mem_nil, or_false, not_or] at hchar
  exact hitAt?_of_comment (hg.steady block (by simp [hg.entries_eq])) hg.block_eq
    (by simp [hchar]) hfirst (not_reads_of_reads hfirst hchar.2.2.2.2) h

theorem hitAt?_line (h : ∀ e, ¬ d.Reads ['/', '/'] e) :
    Plain.hitAt? (line.2.rule line.1.name) c = none := by
  simp only [List.mem_cons, List.not_mem_nil, or_false, not_or] at hchar
  exact hitAt?_of_comment (hg.steady line (by simp [hg.entries_eq])) hg.line_eq
    (by simp [hchar]) hfirst (not_reads_of_reads hfirst hchar.2.2.2.2) h

theorem hitAt?_quoted : Plain.hitAt? (quoted.2.rule quoted.1.name) c = none := by
  have hexpr : quoted.2.regex.program.expr = string.expr := congrArg Outline.expr hg.quoted_eq
  refine Pattern.hitAt?_of_fails (hg.steady quoted (by simp [hg.entries_eq])) (fails_of_opens ?_)
  have hcodes : (CharClass.ofCodes [0x22, 0x27]).contains char.toNat = false := by
    rw [CharClass.contains_ofCodes, ← Bool.not_eq_true, List.contains_iff_mem]
    intro hmem
    simp only [List.mem_cons, List.not_mem_nil, or_false, not_or] at hmem hchar
    rcases hmem with heq | heq
    · exact hchar.1 (Char.toNat_inj.mp heq)
    · exact hchar.2.1 (Char.toNat_inj.mp heq)
  rw [hexpr, codeAfter?_of_reads hfirst]
  simp only [string, opens, Option.any_some, hcodes, Bool.false_and]

/-- No comment and no string begins in code, as long as there is no slash behind the place. -/
theorem hitAt?_of_bare (h : ∀ second e, ¬ d.Reads ['/', second] e) :
    ∀ entry ∈ [block, line, quoted], Plain.hitAt? (entry.2.rule entry.1.name) c = none := by
  intro entry hentry
  simp only [List.mem_cons, List.not_mem_nil, or_false] at hentry
  rcases hentry with rfl | rfl | rfl
  · exact hitAt?_block hg hchar hfirst (h '*')
  · exact hitAt?_line hg hchar hfirst (h '/')
  · exact hitAt?_quoted hg hchar hfirst

/-- The character in front of the slashes is the context of the comment that they open. -/
theorem firstAt?_of_slashes {remark : List Char} (hremark : '\n' ∉ remark)
    (h : d.Reads ('/' :: '/' :: remark) e) (hend : e.after = []) :
    ∃ hit, Plain.firstAt? g.rules c = some (line.2.rule line.1.name, [hit], e) ∧
      Plain.hitAt? (line.2.rule line.1.name) c = some (hit, e) ∧ hit.contextEnd = d.offset := by
  have hslashes : d.Reads (['/', '/'] ++ remark) e := h
  obtain ⟨f, hopens, hrest⟩ := hslashes.exists_of_append
  have hstar : ∀ k, ¬ d.Reads ['/', '*'] k := by
    intro k hreads
    have hafter := hopens.after.symm.trans hreads.after
    simp at hafter
  have hblock := hitAt?_block hg hchar hfirst hstar
  simp only [List.mem_cons, List.not_mem_nil, or_false, not_or] at hchar
  obtain ⟨hit, hhits, hhit, hcontext⟩ := exists_hits_of_comment
    (hg.steady line (by simp [hg.entries_eq])) hg.line_eq (by simp [hchar]) hfirst
    (not_reads_of_reads hfirst hchar.2.2.2.2) hopens hrest.le (run_lineRest hremark hrest hend _)
  refine ⟨hit, ?_, hhit, hcontext⟩
  rw [Grammar.rules_eq_map_entries, hg.entries_eq, List.map_cons,
    Plain.firstAt?_cons_of_nil (Plain.hits_of_hitAt?_eq_none hblock)]
  exact Plain.firstAt?_cons_of_cons hhits

end Bare

/-- In code, all rules overlook that the text goes on with a slash, but at the last character. -/
theorem overlooks_of_isBare (hcode : ∀ entry ∈ rest, IsCode entry) (hbare : IsBare c.text)
    (hleft : 2 ≤ c.left) (back : List Char) :
    ∀ rule ∈ g.rules, rule.Overlooks ('/' :: back) c := by
  intro rule hrule
  obtain ⟨entry, hentry, hcases, rfl⟩ := exists_entry hg hrule
  match hafter : c.after with
  | [] => simp [c.left_eq, hafter] at hleft
  | [_] => simp [c.left_eq, hafter] at hleft
  | first :: second :: others =>
      have hmem (char : Char) (h : char ∈ c.after) : char ∉ ['"', '\x27', '\\', ':', '/'] :=
        hbare char (List.mem_append_right _ h)
      have hsplit : c.after = [first] ++ (second :: others) := hafter
      obtain ⟨d, hfirst, hd⟩ := Cursor.exists_reads hsplit
      obtain ⟨e, hsecond, -⟩ := Cursor.exists_reads (show d.after = [second] ++ others from hd)
      have hne : second ≠ '/' := fun heq => hmem second (by simp [hafter]) (by simp [heq])
      rcases hcases with hcases | hcases
      · have hhere := hitAt?_of_bare hg (hmem first (by simp [hafter])) hfirst
          (fun _ => not_reads_of_reads hsecond hne) entry hcases
        have hmore := hitAt?_of_bare hg (hmem first (by simp [hafter]))
          (hfirst.extend ('/' :: back)) (fun _ => not_reads_of_reads (hsecond.extend _) hne) entry
          hcases
        exact ⟨by rw [hhere, hmore]; rfl, fun _ => hhere⟩
      · have hfacts := hcode entry hcases
        exact Pattern.overlooks_rule (hg.steady entry hentry) hfacts.global_eq (by decide)
          hfacts.overlooks (by simp [hafter])

/-- Only the patterns for code have hits in it. -/
theorem exists_isCode (hcode : ∀ entry ∈ rest, IsCode entry) (hbare : IsBare c.text) {rule : Rule}
    {hit : Hit} (hrule : rule ∈ g.rules) (hhit : Plain.hitAt? rule c = some (hit, d)) :
    ∃ entry, IsCode entry ∧ entry.2.regex.isSteady = true ∧ entry.2.rule entry.1.name = rule := by
  obtain ⟨entry, hentry, hcases, rfl⟩ := exists_entry hg hrule
  rcases hcases with hcases | hcases
  · match hafter : c.after with
    | [] =>
        have hlt := Plain.length_after_hitAt? hhit
        simp [hafter] at hlt
    | first :: others =>
        have hmem (char : Char) (h : char ∈ c.after) : char ∉ ['"', '\x27', '\\', ':', '/'] :=
          hbare char (List.mem_append_right _ h)
        obtain ⟨e, hfirst, he⟩ := Cursor.exists_reads (show c.after = [first] ++ others from hafter)
        have hbehind (second : Char) (f : Cursor) : ¬ e.Reads ['/', second] f := by
          intro hreads
          refine hmem '/' ?_ (by simp)
          rw [hafter, ← he, hreads.after]
          simp
        rw [hitAt?_of_bare hg (hmem first (by simp [hafter])) hfirst hbehind entry hcases] at hhit
        cases hhit
  · exact ⟨entry, hcode entry hcases, hg.steady entry hentry, rfl⟩

end Rules

section Ends

variable {g : Grammar} {block line quoted : Token × Pattern} {rest : List (Token × Pattern)}
  (hg : Begins g block line quoted rest) (hcode : ∀ entry ∈ rest, IsCode entry)
  {code remark more : List Char} {d e : Cursor} {front : List Step} {nodes : List Node}

/-- A hit of a pattern for code that comes last leaves a token, which is all of it if its name is
not that of classes. -/
theorem exists_matched_of_isCode {entry : Token × Pattern} (hentry : IsCode entry) {hit : Hit}
    (hmem : entry.2.rule entry.1.name ∈ g.rules)
    (hpath : Path g.rules (.start code) front d)
    (hhit : Plain.hitAt? (entry.2.rule entry.1.name) d = some (hit, e)) (hend : e.left = 0)
    (hbuild : Forest.build 0 (.start (.start code))
      (front ++ [.take (entry.2.rule entry.1.name) hit]) = .ok nodes) :
    ∃ matched, nodes.getLast? = some (.matched matched) ∧ matched.name = entry.1.name ∧
      (entry.1.name ≠ "class-name" → matched.text.length = d.left) := by
  have hspans := Plain.spans_of_hitAt? (Grammar.sound_of_mem_rules hmem) hhit
  obtain ⟨place, text, matched, hle, hoffset, hreads, hmade, hlast⟩ :=
    Forest.exists_matched_of_build_take hpath (Forest.Run.sound_start _) rfl hspans hbuild
  refine ⟨matched, hlast, hmade.name_eq.trans (Pattern.rule_token _ _), fun hne => ?_⟩
  have hcontext := Pattern.contextEnd_of_hitAt? (hentry.context hne) hhit
  have hplace : place = d := by
    refine Cursor.eq_of_text_eq (Cursor.text_eq_of_le hle) ?_
    rw [hoffset, hcontext, hspans.start]
  subst hplace
  rw [e.left_eq, List.length_eq_zero_iff] at hend
  rw [hmade.text_eq, String.length_ofList, place.left_eq, hreads.after, hend, List.append_nil]

include hg hcode

theorem leaveContext_of_char (hbare : IsBare code) (hwidth : Text.width code < UInt32.size)
    (h : Plain.Arrives g.rules more (.start code) d front) (hleft : d.left = 1)
    (hbuild : Forest.build 0 (.start (.start code)) (Plain.steps g.rules (.start code)) =
      .ok nodes) : LeaveContext nodes := by
  have htext : d.text = code := (Cursor.text_eq_of_le h.path.le).trans (Cursor.start_text code)
  rw [h.steps_eq] at hbuild
  cases hnext : d.next? with
  | none => simp [d.left_eq, Cursor.next?_eq_none_iff.mp hnext] at hleft
  | some found =>
      obtain ⟨char, e⟩ := found
      have hless := Cursor.left_of_next? hnext
      have hend (f : Cursor) (hf : f.left = 0) : Plain.steps g.rules f = [] := by
        rw [f.left_eq, List.length_eq_zero_iff] at hf
        exact Plain.steps_of_next?_eq_none (Cursor.next?_eq_none_iff.mpr hf)
      cases hfirst : Plain.firstAt? g.rules d with
      | none =>
          rw [Plain.steps_of_firstAt?_eq_none hnext hfirst, hend e (by omega)] at hbuild
          obtain ⟨text, range, hlast⟩ := Forest.exists_literal_of_build_skip h.path
            (Forest.Run.sound_start _) rfl hnext (by rwa [htext, Nat.zero_add]) hbuild
          exact ⟨_, hlast, .inl rfl⟩
      | some taken =>
          obtain ⟨rule, hits, f⟩ := taken
          have hmem := Plain.mem_of_firstAt? hfirst
          obtain ⟨hhits, hne⟩ := Plain.hits_of_firstAt? hfirst
          cases hhit : Plain.hitAt? rule d with
          | none =>
              rw [Plain.hits_of_hitAt?_eq_none hhit] at hhits
              cases hhits
              exact absurd rfl hne
          | some found =>
              obtain ⟨hit, k⟩ := found
              obtain ⟨entry, hentry, hsteady, rfl⟩ :=
                exists_isCode hg hcode (htext ▸ hbare) hmem hhit
              have hsingle : (entry.2.rule entry.1.name).global = true →
                  Plain.hitAt? (entry.2.rule entry.1.name) d = none := by
                rw [Pattern.rule_global, hentry.global_eq]
                exact fun h => nomatch h
              rw [Plain.hits_of_single hsingle hhit] at hhits
              cases hhits
              have hlt := Plain.length_after_hitAt? hhit
              rw [← f.left_eq, ← d.left_eq] at hlt
              have hzero : f.left = 0 := by omega
              rw [Plain.steps_of_firstAt?_eq_some hnext hfirst, hend f hzero] at hbuild
              obtain ⟨matched, hlast, hname, hlength⟩ :=
                exists_matched_of_isCode hentry hmem h.path hhit hzero hbuild
              have hother : entry.1.name ≠ "class-name" := by
                intro heq
                have htwo := hentry.two_le heq
                have hleast := Pattern.left_add_least_le hsteady hhit
                omega
              refine ⟨_, hlast, .inr ⟨(hlength hother).trans hleft, ?_⟩⟩
              exact fun heq => hother (hname.symm.trans (Option.some.inj heq))

theorem not_leaveContext_of_hit (hbare : IsBare code)
    (h : Plain.Arrives g.rules more (.start code) d front) (hleft : 2 ≤ d.left) {rule : Rule}
    {hit : Hit} (hmem : rule ∈ g.rules) (hhit : Plain.hitAt? rule d = some (hit, e))
    (hend : e.left = 0) (htake : Plain.Arrives g.rules more d e [.take rule hit])
    (hbuild : Forest.build 0 (.start (.start code)) (Plain.steps g.rules (.start code)) =
      .ok nodes) : ¬ LeaveContext nodes := by
  have htext : d.text = code := (Cursor.text_eq_of_le h.path.le).trans (Cursor.start_text code)
  have hnil : Plain.steps g.rules e = [] := by
    rw [e.left_eq, List.length_eq_zero_iff] at hend
    exact Plain.steps_of_next?_eq_none (Cursor.next?_eq_none_iff.mpr hend)
  rw [h.steps_eq, htake.steps_eq, hnil, List.append_nil] at hbuild
  obtain ⟨entry, hentry, -, rfl⟩ := exists_isCode hg hcode (htext ▸ hbare) hmem hhit
  obtain ⟨matched, hlast, hname, hlength⟩ :=
    exists_matched_of_isCode hentry hmem h.path hhit hend hbuild
  rintro ⟨last, hlast', hcases⟩
  cases hlast.symm.trans hlast'
  rcases hcases with hliteral | ⟨hone, hother⟩
  · cases hliteral
  · have hne : entry.1.name ≠ "class-name" := fun heq =>
      hother (congrArg some (hname.trans heq))
    have hall := hlength hne
    have hone : matched.text.length = 1 := hone
    omega

omit hcode in
theorem endInComment_of_char (hbare : IsBare code) (hremark : '\n' ∉ remark)
    (h : Plain.Arrives g.rules ('/' :: '/' :: remark) (.start code) d front) (hleft : d.left = 1)
    (hbuild : Forest.build 0 (.start (.start (code ++ '/' :: '/' :: remark)))
      (Plain.steps g.rules (.start (code ++ '/' :: '/' :: remark))) = .ok nodes) :
    EndInComment nodes (String.ofList ('/' :: '/' :: remark)) := by
  have htext : d.text = code := (Cursor.text_eq_of_le h.path.le).trans (Cursor.start_text code)
  obtain ⟨char, hafter⟩ := List.length_eq_one_iff.mp (d.left_eq.symm.trans hleft)
  have hchar : char ∉ ['"', '\x27', '\\', ':', '/'] :=
    hbare char (htext ▸ List.mem_append_right _ (by simp [hafter]))
  obtain ⟨e, hone, he⟩ := Cursor.exists_reads (show d.after = [char] ++ [] from hafter)
  have hfirst := hone.extend ('/' :: '/' :: remark)
  have hmore : (e.extend ('/' :: '/' :: remark)).after = ('/' :: '/' :: remark) ++ [] := by
    rw [Cursor.extend_after, he, List.append_nil]
    rfl
  obtain ⟨f, hreads, hend⟩ := Cursor.exists_reads hmore
  obtain ⟨hit, hat, hhit, hcontext⟩ := firstAt?_of_slashes hg hchar hfirst hremark hreads hend
  have hmem := Plain.mem_of_firstAt? hat
  have hspans := Plain.spans_of_hitAt? (Grammar.sound_of_mem_rules hmem) hhit
  rw [Cursor.start_append, h.extend_eq,
    Plain.steps_of_firstAt?_eq_some (Cursor.reads_single_iff.mp hfirst) hat,
    Plain.steps_of_next?_eq_none (Cursor.next?_eq_none_iff.mpr hend)] at hbuild
  obtain ⟨place, text, comment, hle, hoffset, htoken, hmade, hlast⟩ :=
    Forest.exists_matched_of_build_take (h.path.extend _) (Forest.Run.sound_start _) rfl hspans
      hbuild
  have hplace : place = e.extend ('/' :: '/' :: remark) := Cursor.eq_of_text_eq
    ((Cursor.text_eq_of_le hle).trans (Cursor.text_eq_of_le hfirst.le).symm)
    (hoffset.trans hcontext)
  subst hplace
  refine ⟨comment, hlast, ?_, ?_⟩
  · rw [hmade.name_eq, Pattern.rule_token]
    exact congrArg Outline.name hg.line_eq
  · have hsame := htoken.after.symm.trans hreads.after
    rw [hmade.text_eq, List.append_cancel_right hsame]

omit hcode in
/-- A comment at the end that is all of a text, behind some code, stands for a hit whose context
ends with the code. -/
theorem exists_take_of_endInComment (hwidth : Text.width (code ++ more) < UInt32.size)
    (hnodes : g.tokenize (String.ofList (code ++ more)) = .ok nodes)
    (hends : EndInComment nodes (String.ofList more)) :
    ∃ take ∈ Step.takes (Plain.steps g.rules (.start (code ++ more))), take.1.token = "comment" ∧
      take.2.contextEnd = Text.width code ∧ take.2.stop = Text.width code + Text.width more := by
  obtain ⟨comment, hlast, hname, htext⟩ := hends
  obtain ⟨take, hmem, ⟨text, -, hcontext, -, hmade⟩, hstop⟩ :=
    Grammar.exists_take_of_getLast? hg.steady hwidth hnodes hlast
  have hmore : text = more := by
    have hsame := congrArg String.toList (hmade.text_eq.symm.trans htext)
    rwa [String.toList_ofList, String.toList_ofList] at hsame
  subst hmore
  rw [Text.width_append] at hstop
  exact ⟨take, hmem, hmade.name_eq.symm.trans hname, by omega, hstop⟩

omit hcode in
/-- Behind the start of a text, no comment begins right where it is hit. -/
theorem start_lt_contextEnd (hcode : ∀ entry ∈ rest, IsCode entry) {c : Cursor} {rule : Rule}
    {hit : Hit} (hmem : rule ∈ g.rules) (htoken : rule.token = "comment") (hbefore : c.before ≠ [])
    (hhit : Plain.hitAt? rule c = some (hit, d)) : hit.start < hit.contextEnd := by
  obtain ⟨entry, hentry, hcases, rfl⟩ := exists_entry hg hmem
  rw [Pattern.rule_token] at htoken
  have hsteady := hg.steady entry hentry
  rcases hcases with hcases | hcases
  · simp only [List.mem_cons, List.not_mem_nil, or_false] at hcases
    rcases hcases with rfl | rfl | rfl
    · exact start_lt_contextEnd_of_comment hsteady hg.block_eq quiet_blockRest hbefore hhit
    · exact start_lt_contextEnd_of_comment hsteady hg.line_eq quiet_lineRest hbefore hhit
    · have hstring : entry.1.name = "string" := congrArg Outline.name hg.quoted_eq
      exact absurd (htoken.symm.trans hstring) (by decide)
  · exact absurd htoken (hcode entry hcases).name_ne

theorem not_endInComment_of_hit (hne : code ≠ []) (hmore : more ≠ [])
    (hwidth : Text.width (code ++ more) < UInt32.size)
    (h : Plain.Arrives g.rules more (.start code) d front) {rule : Rule} {hit : Hit}
    (hend : e.left = 0) (htake : Plain.Arrives g.rules more d e [.take rule hit])
    (hnodes : g.tokenize (String.ofList (code ++ more)) = .ok nodes) :
    ¬ EndInComment nodes (String.ofList more) := by
  intro hends
  obtain ⟨take, hmem, htoken, hcontext, hstop⟩ :=
    exists_take_of_endInComment hg hwidth hnodes hends
  have harrives := h.trans htake
  have htext : e.text = code :=
    (Cursor.text_eq_of_le harrives.path.le).trans (Cursor.start_text code)
  have hoffset : e.offset = Text.width code := by
    rw [e.left_eq, List.length_eq_zero_iff] at hend
    rw [e.offset_eq, ← htext, Cursor.text, hend, List.append_nil, Text.width_reverse]
  have hpos {text : List Char} (hne : text ≠ []) : 0 < Text.width text :=
    Nat.pos_of_ne_zero fun hzero => hne (Text.width_eq_zero_iff.mp hzero)
  have hcodePos := hpos hne
  have hmorePos := hpos hmore
  rw [Cursor.start_append, harrives.extend_eq, Step.takes_append] at hmem
  rcases List.mem_append.mp hmem with hmem | hmem
  · have hbounds := (harrives.path.bounds_of_mem_takes take hmem).2
    omega
  · obtain ⟨hrule, place, behind, hle, hhit⟩ := Plain.exists_of_mem_takes hmem
    have hplace := Cursor.offset_le_of_le hle
    rw [Cursor.extend_offset] at hplace
    obtain ⟨-, ⟨hstart, -⟩, -⟩ := Plain.hitAt?_eq_some_iff.mp hhit
    have hbefore : place.before ≠ [] := by
      intro hnil
      have hzero := place.offset_eq
      rw [hnil, Text.width_nil] at hzero
      omega
    have hlt := start_lt_contextEnd hg hcode hrule htoken hbefore hhit
    omega

end Ends

section Start

variable {g : Grammar} {block line quoted : Token × Pattern} {rest : List (Token × Pattern)}
  (hg : Begins g block line quoted rest) {remark : List Char} {nodes : List Node}

/-- The places at the start of a text, between two slashes, behind them and at the end. -/
theorem exists_places (remark : List Char) :
    ∃ c d e f : Cursor, c = .start ('/' :: '/' :: remark) ∧ c.Reads ['/'] d ∧ d.Reads ['/'] e ∧
      e.Reads remark f ∧ f.after = [] ∧ ∀ k, ¬ c.Reads ['/', '*'] k := by
  obtain ⟨e, hslashes, he⟩ := Cursor.exists_reads
    (show (Cursor.start ('/' :: '/' :: remark)).after = ['/', '/'] ++ remark from rfl)
  obtain ⟨d, hfirst, hsecond⟩ := hslashes.exists_of_cons
  obtain ⟨f, hremark, hend⟩ :=
    Cursor.exists_reads (show e.after = remark ++ [] by rw [he, List.append_nil])
  refine ⟨_, d, e, f, rfl, hfirst, hsecond, hremark, hend, fun k hstar => ?_⟩
  have hsame := hslashes.after.symm.trans hstar.after
  simp at hsame

include hg

/-- Slashes at the start of a text open a line comment. -/
theorem endInComment_of_start (hremark : '\n' ∉ remark) (hstar : remark.head? ≠ some '*')
    (hbuild : Forest.build 0 (.start (.start ('/' :: '/' :: remark)))
      (Plain.steps g.rules (.start ('/' :: '/' :: remark))) = .ok nodes) :
    EndInComment nodes (String.ofList ('/' :: '/' :: remark)) := by
  obtain ⟨c, d, e, f, hc, hfirst, hsecond, hrest, hend, hhere⟩ := exists_places remark
  rw [← hc] at hbuild
  have hslashes : c.Reads ['/', '/'] e := hfirst.trans hsecond
  have hreads : c.Reads ('/' :: '/' :: remark) f := hslashes.trans hrest
  have hbehind : ∀ k, ¬ d.Reads ['/', '*'] k := by
    intro k hopens
    have hsame := (hsecond.trans hrest).after.symm.trans hopens.after
    rw [hend, List.append_nil] at hsame
    have hremark : remark = '*' :: k.after := (List.cons.inj hsame).2
    rw [hremark] at hstar
    exact hstar rfl
  have hblock := hitAt?_of_comment (hg.steady block (by simp [hg.entries_eq])) hg.block_eq
    (by decide) hfirst hhere hbehind
  have hline := hits_of_comment_of_start (hg.steady line (by simp [hg.entries_eq])) hg.line_eq
    (by rw [hc]; rfl) hslashes hrest.le hreads (run_lineRest hremark hrest hend _)
  have hat : Plain.firstAt? g.rules c = some (line.2.rule line.1.name,
      [.between c f (Cursor.offset_le_of_le hreads.le)], f) := by
    rw [Grammar.rules_eq_map_entries, hg.entries_eq, List.map_cons,
      Plain.firstAt?_cons_of_nil (Plain.hits_of_hitAt?_eq_none hblock)]
    exact Plain.firstAt?_cons_of_cons hline
  obtain ⟨comment, rfl, hmade⟩ := Forest.exists_matched_of_build hreads
    (Cursor.reads_single_iff.mp hfirst) hat hend hbuild
  refine ⟨comment, rfl, ?_, hmade.text_eq⟩
  rw [hmade.name_eq, Pattern.rule_token]
  exact congrArg Outline.name hg.line_eq

/-- But with a star behind them, a block comment opens at the second one and comes first. -/
theorem not_endInComment_of_star (hstar : remark.head? = some '*')
    (hwidth : Text.width ('/' :: '/' :: remark) < UInt32.size)
    (hnodes : g.tokenize (String.ofList ('/' :: '/' :: remark)) = .ok nodes) :
    ¬ EndInComment nodes (String.ofList ('/' :: '/' :: remark)) := by
  intro hends
  obtain ⟨back, rfl⟩ := List.head?_eq_some_iff.mp hstar
  obtain ⟨c, d, e, f, hc, hfirst, hsecond, hrest, -, hhere⟩ := exists_places ('*' :: back)
  obtain ⟨j, hbehind, -⟩ := hrest.exists_of_cons
  have hopens : d.Reads ['/', '*'] j := hsecond.trans hbehind
  obtain ⟨k, hle, hrun⟩ :=
    exists_run_of_quiet quiet_blockRest (isSome_blockRest 0) (captured c d) j
  obtain ⟨hit, hhits, -, hcontext⟩ := exists_hits_of_comment
    (hg.steady block (by simp [hg.entries_eq])) hg.block_eq (by decide) hfirst hhere hopens hle hrun
  have hat : Plain.firstAt? g.rules c = some (block.2.rule block.1.name, [hit], k) := by
    rw [Grammar.rules_eq_map_entries, hg.entries_eq]
    exact Plain.firstAt?_cons_of_cons hhits
  obtain ⟨take, hmem, -, hzero, -⟩ := exists_take_of_endInComment hg
    (show Text.width ([] ++ '/' :: '/' :: '*' :: back) < UInt32.size from hwidth) hnodes hends
  rw [List.nil_append, ← hc,
    Plain.steps_of_firstAt?_eq_some (Cursor.reads_single_iff.mp hfirst) hat,
    Step.takes_append] at hmem
  -- The first slash is the context of that comment, and all that comes later begins behind it.
  have hcontextPos : c.offset < d.offset := hfirst.offset_lt (by simp)
  have hlater : d.offset ≤ k.offset := Cursor.offset_le_of_le (Cursor.le_trans hopens.le hle)
  rw [Text.width_nil] at hzero
  rcases List.mem_append.mp hmem with hmem | hmem
  · obtain rfl := List.mem_singleton.mp hmem
    have hcontextEnd : hit.contextEnd = 0 := hzero
    omega
  · obtain ⟨-, place, behind, hplace, hhit⟩ := Plain.exists_of_mem_takes hmem
    obtain ⟨-, ⟨hstart, -⟩, -⟩ := Plain.hitAt?_eq_some_iff.mp hhit
    have hle := Cursor.offset_le_of_le hplace
    have hcontextEnd := take.2.start_le_contextEnd
    omega

end Start

theorem endInComment_iff {g : Grammar} {block line quoted : Token × Pattern}
    {rest : List (Token × Pattern)} (hg : Begins g block line quoted rest)
    (hcode : ∀ entry ∈ rest, IsCode entry) {code remark : List Char} {front nodes : List Node}
    (hbare : IsBare code) (hremark : '\n' ∉ remark)
    (hwidth : Text.width (code ++ '/' :: '/' :: remark) < UInt32.size)
    (hfront : Forest.build 0 (.start (.start code)) (Plain.steps g.rules (.start code)) = .ok front)
    (hnodes : g.tokenize (String.ofList (code ++ '/' :: '/' :: remark)) = .ok nodes) :
    EndInComment nodes (String.ofList ('/' :: '/' :: remark)) ↔
      (code = [] ∧ remark.head? ≠ some '*') ∨ LeaveContext front := by
  obtain ⟨nodes', hnodes', hbuild, -⟩ := Grammar.exists_build hg.steady hwidth
  cases hnodes.symm.trans hnodes'
  by_cases hnil : code = []
  · subst hnil
    have hempty : Plain.steps g.rules (.start []) = [] := Plain.steps_of_next?_eq_none rfl
    rw [hempty] at hfront
    cases hfront
    have hnone : ¬ LeaveContext [] := fun ⟨_, hlast, _⟩ => nomatch hlast
    by_cases hstar : remark.head? = some '*'
    · exact iff_of_false (not_endInComment_of_star hg hstar hwidth hnodes) (by simp [hstar, hnone])
    · exact iff_of_true (endInComment_of_start hg hremark hstar hbuild) (.inl ⟨rfl, hstar⟩)
  · simp only [hnil, false_and, false_or]
    have hcodeWidth : Text.width code < UInt32.size := by
      rw [Text.width_append] at hwidth
      omega
    have htext : (Cursor.start code).text = code := Cursor.start_text code
    have hleft : 1 ≤ (Cursor.start code).left := List.length_pos_iff.mpr hnil
    have hoverlooks (c : Cursor) (hc : c.text = code) (htwo : 2 ≤ c.left) :
        ∀ rule ∈ g.rules, rule.Overlooks ('/' :: '/' :: remark) c :=
      overlooks_of_isBare hg hcode (hc ▸ hbare) htwo _
    obtain ⟨steps, d, harrives, hcloses⟩ :=
      Plain.exists_arrives (fun _ => Grammar.sound_of_mem_rules) hoverlooks htext hleft
    cases hcloses with
    | char hone =>
        exact iff_of_true (endInComment_of_char hg hbare hremark harrives hone hbuild)
          (leaveContext_of_char hg hcode hbare hcodeWidth harrives hone hfront)
    | hit htwo hmem hhit hend htake =>
        exact iff_of_false
          (not_endInComment_of_hit hg hcode hnil (by simp) hwidth harrives hend htake hnodes)
          (not_leaveContext_of_hit hg hcode hbare harrives htwo hmem hhit hend htake hfront)

/-- A line comment follows code if the nodes of the code leave its last character for the context,
or if there is no code and the slashes do not open a block comment. -/
theorem tokenize_lineComment {code remark : String} (hcode : IsBare code.toList)
    (hremark : '\n' ∉ remark.toList)
    (hwidth : Text.width code.toList + Text.width remark.toList + 2 < UInt32.size) :
    ∃ front nodes r r',
      registry.run (Session.tokenizeBy "clike" code) = some (.ok (.ok front), r) ∧
      registry.run (Session.tokenizeBy "clike" (code ++ "//" ++ remark)) =
        some (.ok (.ok nodes), r') ∧
      (EndInComment nodes ("//" ++ remark) ↔
        (code = "" ∧ remark.toList.head? ≠ some '*') ∨ LeaveContext front) := by
  obtain ⟨g, block, line, quoted, rest, hgrammar, hg, hrest⟩ := exists_grammar_isCode
  have hremarked : "//" ++ remark = String.ofList ('/' :: '/' :: remark.toList) := by
    rw [← String.toList_inj]
    simp
  have hboth : code ++ "//" ++ remark =
      String.ofList (code.toList ++ '/' :: '/' :: remark.toList) := by
    rw [← String.toList_inj]
    simp
  have hslash : '/'.utf8Size = 1 := rfl
  have hwidth' : Text.width (code.toList ++ '/' :: '/' :: remark.toList) < UInt32.size := by
    rw [Text.width_append, Text.width_cons, Text.width_cons]
    omega
  obtain ⟨front, hfront, hbuild, -⟩ :=
    Grammar.exists_build hg.steady (show Text.width code.toList < UInt32.size by omega)
  obtain ⟨nodes, hnodes, -⟩ := Grammar.exists_build hg.steady hwidth'
  rw [String.ofList_toList] at hfront
  obtain ⟨r, hrun⟩ := exists_tokenizeBy_of_grammar hgrammar hfront
  obtain ⟨r', hrun'⟩ := exists_tokenizeBy_of_grammar hgrammar (hboth ▸ hnodes)
  refine ⟨front, nodes, r, r', hrun, hrun', ?_⟩
  rw [hremarked, ← String.toList_eq_nil_iff]
  exact endInComment_iff hg hrest hcode hremark hwidth' hbuild hnodes

/-- A sign at the end of code is left for the context, but a keyword is not. -/
theorem exists_tokenize_of_samples :
    ∃ g front nodes, grammar = .ok g ∧ g.tokenize "a;" = .ok front ∧
      (∃ sign, front.getLast? = some (.matched sign) ∧ sign.name = "punctuation" ∧
        sign.text = ";") ∧
      g.tokenize "if//x" = .ok nodes ∧
      ∃ text range, nodes.getLast? = some (.literal text range) := by
  have hcheck : (grammar.toOption.bind fun g => (g.tokenize "a;").toOption.bind fun front =>
      (g.tokenize "if//x").toOption.map fun nodes =>
        ((front.getLast?.bind Node.matched?).map fun sign => (sign.name, sign.text),
          nodes.getLast?.map (·.isLiteral))) =
      some (some ("punctuation", ";"), some true) := by decide +kernel
  obtain ⟨g, hg, hcheck⟩ := Option.bind_eq_some_iff.mp hcheck
  obtain ⟨front, hfront, hcheck⟩ := Option.bind_eq_some_iff.mp hcheck
  obtain ⟨nodes, hnodes, hcheck⟩ := Option.map_eq_some_iff.mp hcheck
  obtain ⟨hsign, hliteral⟩ := Prod.mk.inj hcheck
  obtain ⟨sign, hsign, hname⟩ := Option.map_eq_some_iff.mp hsign
  obtain ⟨last, hlast, hmatched⟩ := Option.bind_eq_some_iff.mp hsign
  obtain ⟨literal, hlast', hliteral⟩ := Option.map_eq_some_iff.mp hliteral
  obtain ⟨hname, htext⟩ := Prod.mk.inj hname
  refine ⟨g, front, nodes, eq_ok_of_toOption_eq_some hg, eq_ok_of_toOption_eq_some hfront,
    ⟨sign, ?_, hname, htext⟩, eq_ok_of_toOption_eq_some hnodes, ?_⟩
  · cases last with
    | literal => cases hmatched
    | matched token =>
        cases hmatched
        exact hlast
  · cases literal with
    | literal text range => exact ⟨text, range, hlast'⟩
    | matched => cases hliteral

theorem tokenize_lineComment_of_sign :
    IsBare "a;".toList ∧ ∃ nodes r,
      registry.run (Session.tokenizeBy "clike" ("a;" ++ "//" ++ "x")) = some (.ok (.ok nodes), r) ∧
      EndInComment nodes ("//" ++ "x") := by
  have hbare : IsBare "a;".toList := by decide
  obtain ⟨g, front, -, hgrammar, hfront, ⟨sign, hlast, hname, htext⟩, -⟩ :=
    exists_tokenize_of_samples
  obtain ⟨r, hrun⟩ := exists_tokenizeBy_of_grammar hgrammar hfront
  obtain ⟨front', nodes, _, r', hrun', hcomment, hiff⟩ :=
    @tokenize_lineComment "a;" "x" hbare (by decide) (by decide)
  cases hrun.symm.trans hrun'
  refine ⟨hbare, nodes, r', hcomment, hiff.mpr (.inr ⟨_, hlast, .inr ⟨?_, ?_⟩⟩)⟩
  · rw [Node.text, htext]
    decide
  · intro heq
    exact absurd (hname.symm.trans (Option.some.inj heq)) (by decide)

theorem not_tokenize_lineComment_of_keyword :
    ¬ ∀ code remark : String, IsBare code.toList → '\n' ∉ remark.toList → ∃ nodes r,
      registry.run (Session.tokenizeBy "clike" (code ++ "//" ++ remark)) =
        some (.ok (.ok nodes), r) ∧ EndInComment nodes ("//" ++ remark) := by
  intro h
  obtain ⟨nodes, r, hrun, comment, hcomment, -⟩ := h "if" "x" (by decide) (by decide)
  obtain ⟨g, -, nodes', hgrammar, -, -, hnodes, text, range, hlast⟩ := exists_tokenize_of_samples
  obtain ⟨r', hrun'⟩ := exists_tokenizeBy_of_grammar hgrammar hnodes
  cases hrun.symm.trans hrun'
  cases hcomment.symm.trans hlast

end Languages.CLike

end Highlight
