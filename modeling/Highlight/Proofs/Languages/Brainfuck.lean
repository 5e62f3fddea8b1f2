import Highlight.Languages.Brainfuck
import Highlight.Proofs.Languages.Requests
import Highlight.Proofs.Scan.Chunks
import Highlight.Proofs.Unicode.Caseless
import Mathlib.Data.List.TakeWhile

/-!
The grammar for the language of eight commands is a lexer that reads a text once from left to right
(`Brainfuck.lex`). At a blank no pattern matches, at a command only the one for it and the one for
comments behind it, and at any other character only that for comments, which goes on to the next
blank. So the nodes of a text are those of the lexer (`Brainfuck.tokenize_eq_lex`).
-/

namespace Highlight

open Regex Regex.Expr

namespace Languages.Brainfuck

/-- The commands, each with the name and the label of its token. -/
def commands : List (Char × String × Option String) := [
  ('+', "increment", some "inserted"),
  ('-', "decrement", some "deleted"),
  ('<', "pointer", some "keyword"),
  ('>', "pointer", some "keyword"),
  ('[', "branching", some "important"),
  (']', "branching", some "important"),
  ('.', "operator", none),
  (',', "operator", none)]

def command? (char : Char) : Option (String × Option String) :=
  (commands.find? (·.1 = char)).map (·.2)

def isBlank (char : Char) : Bool :=
  Unicode.Property.space.contains char.toNat

/-- The nodes of a text at an offset. Blanks that follow one another are literal text, a command is
a token, and anything else begins a comment that goes on to the next blank. -/
def lex (offset : Nat) : List Char → List Chunk
  | [] => []
  | char :: rest =>
      if isBlank char then
        let blanks := char :: rest.takeWhile isBlank
        .ofText none offset blanks ::
          lex (offset + Text.width blanks) (rest.dropWhile isBlank)
      else
        match command? char with
        | some token => .ofText (some token) offset [char] :: lex (offset + Text.width [char]) rest
        | none =>
            let comment := char :: rest.takeWhile (!isBlank ·)
            .ofText (some ("comment", none)) offset comment ::
              lex (offset + Text.width comment) (rest.dropWhile (!isBlank ·))
termination_by text => text.length
decreasing_by
  · exact Nat.lt_succ_of_le (List.length_dropWhile_le _ rest)
  · exact Nat.lt_succ_self _
  · exact Nat.lt_succ_of_le (List.length_dropWhile_le _ rest)

def single (char : Char) : Expr :=
  .one (.single char.toNat)

def comment : Outline :=
  ⟨"comment", false, false, plus (.one (.compl (.property .space)))⟩

def outlines : List Outline := [
  ⟨"pointer", false, false, .alt (single '<') (single '>')⟩,
  ⟨"increment", false, false, single '+'⟩,
  ⟨"decrement", false, false, single '-'⟩,
  ⟨"branching", false, false, .alt (single '[') (single ']')⟩,
  ⟨"operator", false, false, .one (.ofCodes (['.', ','].map Char.toNat))⟩,
  comment]

/-- The tokens, each with its name and its label. -/
def kinds : List (String × Option String) := [
  ("pointer", some "keyword"),
  ("increment", some "inserted"),
  ("decrement", some "deleted"),
  ("branching", some "important"),
  ("operator", none),
  ("comment", none)]

/-- What the grammar is, for a scan. -/
structure Lexes (g : Grammar) : Prop where
  outlines_eq : g.outlines = outlines
  inside_eq : ∀ entry ∈ g.entries, entry.2.inside = none
  kinds : ∀ entry ∈ g.entries, (entry.1.name, entry.2.label) ∈ kinds

theorem exists_grammar : ∃ g, grammar = .ok g ∧ Lexes g := by
  have hcheck : grammar.toOption.map (fun g => (g.outlines,
      g.entries.all fun entry => entry.2.inside.isNone,
      g.entries.all fun entry => decide ((entry.1.name, entry.2.label) ∈ kinds))) =
      some (outlines, true, true) := by decide +kernel
  obtain ⟨g, hg, hfacts⟩ := Option.map_eq_some_iff.mp hcheck
  simp only [Prod.mk.injEq, List.all_eq_true, Option.isNone_iff_eq_none, decide_eq_true_eq]
    at hfacts
  exact ⟨g, eq_ok_of_toOption_eq_some hg, hfacts.1, hfacts.2.1, hfacts.2.2⟩

theorem isPlain_of_mem : ∀ o ∈ outlines, o.isPlain = true := by
  decide

section Commands

variable {char : Char} {token : String × Option String}

theorem mem_commands (h : command? char = some token) : (char, token) ∈ commands := by
  obtain ⟨⟨found, _⟩, hfind, rfl⟩ := Option.map_eq_some_iff.mp h
  obtain rfl : found = char := by simpa using List.find?_some hfind
  exact List.mem_of_find?_eq_some hfind

theorem isBlank_of_command (h : command? char = some token) : isBlank char = false :=
  (by decide +kernel : ∀ entry ∈ commands, isBlank entry.1 = false) _ (mem_commands h)

theorem isSome_command?_of_mem (h : char ∈ commands.map (·.1)) : (command? char).isSome = true := by
  rw [command?, Option.isSome_map, List.find?_isSome]
  obtain ⟨entry, hentry, rfl⟩ := List.mem_map.mp h
  exact ⟨entry, hentry, by simp⟩

/-- The pattern for a command matches the characters for it only. -/
theorem opens_eq_false (h : command? char = none) :
    ∀ o ∈ outlines.take 5, o.expr.opens (some char.toNat) = false := by
  have hne : ∀ code ∈ [43, 45, 60, 62, 91, 93, 46, 44], char.toNat ≠ code := by
    rintro code hcode rfl
    obtain ⟨other, hother, heq⟩ := List.mem_map.mp
      (show char.toNat ∈ (commands.map (·.1)).map Char.toNat from hcode)
    rw [Char.toNat_inj.mp heq] at hother
    exact Option.isSome_iff_ne_none.mp (isSome_command?_of_mem hother) h
  simp only [List.forall_mem_cons] at hne
  simp only [outlines, List.take_succ_cons, List.take_zero, List.forall_mem_cons]
  simp [single, opens, CharClass.contains_single, CharClass.contains_ofCodes, hne]

end Commands

section Places

variable {c d : Cursor} {char : Char} {rest text : List Char}

theorem fails_of_isBlank (h : c.Reads [char] d) (hblank : isBlank char = true) :
    ∀ o ∈ outlines, o.expr.Fails c := by
  have hcommand : command? char = none := by
    rw [Option.eq_none_iff_forall_ne_some]
    intro token hsome
    rw [isBlank_of_command hsome] at hblank
    cases hblank
  intro o ho
  apply fails_of_opens
  rw [codeAfter?_of_reads h]
  have hlast : o ∈ outlines.take 5 ∨ o = comment := by
    simpa using (show o ∈ outlines.take 5 ++ [comment] from ho)
  rcases hlast with hfirst | rfl
  · exact opens_eq_false hcommand o hfirst
  · have hcontains : Unicode.Property.space.contains char.toNat = true := hblank
    simp [comment, plus, opens, CharClass.contains, hcontains]

/-- Whether an expression matches one character and nothing else. -/
def isSingle : Expr → Bool
  | .one _ => true
  | .alt a b => isSingle a && isSingle b
  | _ => false

theorem leads_of_isSingle {e : Expr} (hsingle : isSingle e = true) (h : c.Reads [char] d)
    (hopens : e.opens (some char.toNat) = true) : e.Leads c d := by
  induction e with
  | one of => exact (moves_one h hopens).leads
  | alt a b iha ihb =>
      obtain ⟨ha, hb⟩ := Bool.and_eq_true_iff.mp hsingle
      cases hfirst : a.opens (some char.toNat) with
      | true => exact (iha ha hfirst).alt
      | false =>
          have hfails : a.Fails c := fails_of_opens (by rw [codeAfter?_of_reads h, hfirst])
          rw [opens, hfirst, Bool.false_or] at hopens
          exact hfails.alt_leads (ihb hb hopens)
  | _ => cases hsingle

theorem takes_command {token : String × Option String} (hcommand : command? char = some token)
    (h : c.Reads [char] d) : Outline.Takes outlines c token.1 d := by
  have hfound : (outlines.find? (·.expr.opens (some char.toNat))).map
      (fun o => (o.name, o.global, isSingle o.expr)) = some (token.1, false, true) :=
    (by decide : ∀ entry ∈ commands, (outlines.find? (·.expr.opens (some entry.1.toNat))).map
      (fun o => (o.name, o.global, isSingle o.expr)) = some (entry.2.1, false, true)) _
      (mem_commands hcommand)
  obtain ⟨o, hfind, heq⟩ := Option.map_eq_some_iff.mp hfound
  simp only [Prod.mk.injEq] at heq
  obtain ⟨hname, hglobal, hsingle⟩ := heq
  have hopens : o.expr.opens (some char.toNat) = true := by
    simpa using (List.find?_eq_some_iff_append.mp hfind).1
  rw [← hname]
  exact Outline.takes_of_find? (codeAfter?_of_reads h) hfind
    (leads_of_isSingle hsingle h hopens) hglobal

/-- A comment goes on to the next blank, or to the end of the text. -/
theorem takes_comment (hcommand : command? char = none) (hblank : isBlank char = false)
    (h : c.Reads (char :: text) d) (htext : ∀ other ∈ text, isBlank other = false)
    (hstop : ∀ other ∈ d.after.head?, isBlank other = true) :
    Outline.Takes outlines c "comment" d := by
  have hcontains {other : Char} (hother : isBlank other = false) :
      (CharClass.compl (.property .space)).contains other.toNat = true := by
    have hspace : Unicode.Property.space.contains other.toNat = false := hother
    simp [CharClass.contains, hspace]
  obtain ⟨e, hfirst, hrest⟩ := h.exists_of_cons
  have hend : (codeAfter? d).any (CharClass.compl (.property .space)).contains = false := by
    rw [Option.any_eq_false]
    intro code hcode
    obtain ⟨other, hother, rfl⟩ := Option.map_eq_some_iff.mp hcode
    have hspace : Unicode.Property.space.contains other.toNat = true := hstop other hother
    simp [CharClass.contains, hspace]
  have hleads : comment.expr.Leads c d := (rounds_one hrest
    (fun other hother => hcontains (htext other hother)) hend).leads_plus
      (moves_one hfirst (hcontains hblank))
  refine ⟨outlines.take 5, comment, [], rfl, rfl, ?_, hleads, by simp [comment]⟩
  intro o ho
  apply fails_of_opens
  rw [codeAfter?_of_reads h]
  exact opens_eq_false hcommand o ho

/-- At a character that is no blank, the patterns take the text of the node that the lexer makes
there. -/
theorem exists_takes (hafter : c.after = char :: rest) (hblank : isBlank char = false) :
    ∃ token text d, token ∈ kinds ∧ c.Reads text d ∧ text ≠ [] ∧
      Outline.Takes outlines c token.1 d ∧ ∀ offset, lex offset c.after =
        .ofText (some token) offset text :: lex (offset + Text.width text) d.after := by
  cases hcommand : command? char with
  | some token =>
      have hsplit : c.after = [char] ++ rest := hafter
      obtain ⟨d, hreads, rfl⟩ := Cursor.exists_reads hsplit
      have hkind := (by decide : ∀ entry ∈ commands, entry.2 ∈ kinds) _ (mem_commands hcommand)
      refine ⟨token, [char], d, hkind, hreads, by simp, takes_command hcommand hreads, ?_⟩
      intro offset
      rw [hafter, lex]
      simp only [hblank, Bool.false_eq_true, if_false, hcommand]
  | none =>
      have hsplit : c.after =
          (char :: rest.takeWhile (!isBlank ·)) ++ rest.dropWhile (!isBlank ·) := by
        rw [hafter, List.cons_append, List.takeWhile_append_dropWhile]
      obtain ⟨d, hreads, hend⟩ := Cursor.exists_reads hsplit
      have htext : ∀ other ∈ rest.takeWhile (!isBlank ·), isBlank other = false := by
        intro other hother
        simpa using List.mem_takeWhile_imp hother
      have hstop : ∀ other ∈ d.after.head?, isBlank other = true := by
        intro other hother
        have hhead := List.head?_dropWhile_not (!isBlank ·) rest
        rw [hend] at hother
        rw [hother] at hhead
        simpa using hhead
      refine ⟨("comment", none), _, d, by decide, hreads, by simp,
        takes_comment hcommand hblank hreads htext hstop, ?_⟩
      intro offset
      rw [hend, hafter, lex]
      simp only [hblank, Bool.false_eq_true, if_false, hcommand]

end Places

/-- Blanks in front of anything else are one literal. -/
theorem lex_append_of_blanks {blanks rest : List Char} (offset : Nat)
    (hblanks : ∀ char ∈ blanks, isBlank char = true)
    (hrest : ∀ char ∈ rest.head?, isBlank char = false) :
    lex offset (blanks ++ rest) =
      Chunk.literals offset blanks ++ lex (offset + Text.width blanks) rest := by
  cases blanks with
  | nil => rfl
  | cons first blanks =>
      obtain ⟨hfirst, hothers⟩ := List.forall_mem_cons.mp hblanks
      have htake : rest.takeWhile isBlank = [] ∧ rest.dropWhile isBlank = rest := by
        cases rest with
        | nil => exact ⟨rfl, rfl⟩
        | cons char rest => simp [hrest char rfl]
      rw [List.cons_append, lex, if_pos hfirst, List.takeWhile_append_of_pos hothers,
        List.dropWhile_append_of_pos hothers, htake.1, htake.2, List.append_nil]
      rfl

section Scans

variable {g : Grammar} {nodes : List Node}

/-- While a run of blanks is under way, the nodes are those of the lexer from its start on. -/
theorem map_chunk?_of_build (hg : Lexes g) {run : Forest.Run} (hsound : run.Sound)
    (hblanks : ∀ char ∈ run.text.reverse, isBlank char = true)
    (hlt : 0 + Text.width run.place.text < UInt32.size)
    (h : Forest.build 0 run (Plain.steps g.rules run.place) = .ok nodes) :
    nodes.map Node.chunk? = (lex run.first.offset run.first.after).map some := by
  have hplain : ∀ o ∈ g.outlines, o.isPlain = true := by
    rw [hg.outlines_eq]
    exact isPlain_of_mem
  induction hleft : run.place.after.length using Nat.strongRecOn generalizing run nodes with
  | ind left ih =>
      cases hafter : run.place.after with
      | nil =>
          -- At the end of the text only the literal of the run is left.
          rw [Plain.steps_of_next?_eq_none (Cursor.next?_eq_none_iff.mpr hafter)] at h
          rw [Forest.Run.map_chunk?_of_literal hsound hlt h, hsound.after, hafter,
            lex_append_of_blanks _ hblanks (by simp), lex, List.append_nil, Nat.zero_add]
      | cons char rest =>
          cases hchar : isBlank char with
          | true =>
              have hsplit : run.place.after = [char] ++ rest := hafter
              obtain ⟨d, hreads, hend⟩ := Cursor.exists_reads hsplit
              have hfails := fails_of_isBlank hreads hchar
              rw [← hg.outlines_eq] at hfails
              obtain ⟨run', hsound', hfirst, htext, rfl, hbuild⟩ :=
                Grammar.exists_of_build_fails hplain hsound hreads hfails h
              rw [← hfirst]
              refine ih _ ?_ hsound' ?_ ?_ hbuild rfl
              · rw [← hleft, hafter, hend, List.length_cons]
                exact Nat.lt_succ_self _
              · rw [htext, List.reverse_cons]
                exact List.forall_mem_append.mpr ⟨hblanks, by simpa using hchar⟩
              · rwa [Cursor.text_eq_of_le hreads.le]
          | false =>
              obtain ⟨token, text, d, hkind, hreads, hne, htakes, hlex⟩ :=
                exists_takes hafter hchar
              rw [← hg.outlines_eq] at htakes
              obtain ⟨entry, hentry, hname, before, node, after, rfl, hbefore, hnode, hbuild⟩ :=
                Grammar.exists_of_build_takes hplain hg.inside_eq hlt hreads hne htakes h
              have htoken : (token.1, entry.2.label) = token :=
                (by decide : ∀ kind ∈ kinds, ∀ other ∈ kinds, kind.1 = other.1 → kind = other)
                  _ (hname ▸ hg.kinds entry hentry) _ hkind rfl
              have hothers : after.map Node.chunk? = (lex d.offset d.after).map some := by
                refine ih _ ?_ (Forest.Run.sound_start d) (by simp [Forest.Run.start]) ?_ hbuild rfl
                · rw [← hleft, hreads.after, List.length_append]
                  exact Nat.lt_add_of_pos_left (List.length_pos_iff.mpr hne)
                · show 0 + Text.width d.text < UInt32.size
                  rwa [Cursor.text_eq_of_le hreads.le]
              rw [List.map_append, List.map_cons,
                Forest.Run.map_chunk?_of_literal hsound hlt hbefore, hnode, htoken, hothers,
                hsound.after, lex_append_of_blanks _ hblanks (by simp [hafter, hchar]), hlex,
                ← hsound.offset_eq, hreads.offset_eq]
              simp

end Scans

/-- Commands alone are a token each. -/
theorem lex_of_commands {text : List Char} (offset : Nat)
    (h : ∀ char ∈ text, (command? char).isSome = true) :
    (lex offset text).map (·.text) = text.map String.singleton ∧
      ∀ chunk ∈ lex offset text, chunk.token.isNone = false := by
  induction text generalizing offset with
  | nil => simp [lex]
  | cons char rest ih =>
      obtain ⟨hchar, hrest⟩ := List.forall_mem_cons.mp h
      obtain ⟨token, hcommand⟩ := Option.isSome_iff_exists.mp hchar
      obtain ⟨htexts, htokens⟩ := ih (offset + Text.width [char]) hrest
      have hlex : lex offset (char :: rest) = .ofText (some token) offset [char] ::
          lex (offset + Text.width [char]) rest := by
        rw [lex]
        simp only [isBlank_of_command hcommand, Bool.false_eq_true, if_false, hcommand]
      rw [hlex]
      constructor
      · rw [List.map_cons, List.map_cons, htexts]
        rfl
      · exact List.forall_mem_cons.mpr ⟨rfl, htokens⟩

theorem exists_tokenizeBy_of_grammar {g : Grammar} {text : String} {nodes : List Node}
    (hgrammar : grammar = .ok g) (hnodes : g.tokenize text = .ok nodes) :
    ∃ r, registry.run (Session.tokenizeBy "brainfuck" text) = some (.ok (.ok nodes), r) := by
  have hbuilt : build? "brainfuck" = some (Build.ofExcept (.ok g)) := by
    rw [build?, hgrammar]
  exact exists_tokenizeBy hbuilt rfl hnodes

/-- The nodes of any text are those that the lexer makes of it: blanks are literal text, commands
are tokens, and all else is in comments. A text of commands has one token for each. -/
theorem tokenize_eq_lex {text : String} (hwidth : Text.width text.toList < UInt32.size) :
    ∃ nodes r,
      registry.run (Session.tokenizeBy "brainfuck" text) = some (.ok (.ok nodes), r) ∧
      nodes.map Node.chunk? = (lex 0 text.toList).map some ∧
      ((∀ char ∈ text.toList, (command? char).isSome = true) →
        nodes.map Node.text = text.toList.map String.singleton ∧
        ∀ node ∈ nodes, node.isLiteral = false) := by
  obtain ⟨g, hgrammar, hg⟩ := exists_grammar
  have hsteady : ∀ entry ∈ g.entries, entry.2.regex.isSteady = true := by
    intro entry hentry
    have houtline : entry.2.outline entry.1.name ∈ g.outlines := List.mem_map_of_mem hentry
    rw [hg.outlines_eq] at houtline
    exact Pattern.isSteady_of_isPlain (isPlain_of_mem _ houtline)
  obtain ⟨nodes, hnodes, hbuild, -⟩ := Grammar.exists_build hsteady hwidth
  rw [String.ofList_toList] at hnodes
  obtain ⟨r, hrun⟩ := exists_tokenizeBy_of_grammar hgrammar hnodes
  have hchunks : nodes.map Node.chunk? = (lex 0 text.toList).map some :=
    map_chunk?_of_build hg (Forest.Run.sound_start (.start text.toList))
      (by simp [Forest.Run.start])
      (by rwa [Forest.Run.start, Cursor.start_text, Nat.zero_add]) hbuild
  refine ⟨nodes, r, hrun, hchunks, ?_⟩
  intro hcommands
  obtain ⟨htexts, htokens⟩ := lex_of_commands 0 hcommands
  obtain ⟨htext, hliteral⟩ := Node.of_map_chunk? hchunks
  refine ⟨htext.trans htexts, ?_⟩
  intro node hnode
  obtain ⟨chunk, hchunk, heq⟩ := hliteral node hnode
  exact heq.trans (htokens chunk hchunk)

/-- A loop with a comment in it, blanks of several bytes around it, and a command inside a
comment. -/
theorem tokenize_eq_lex_loop :
    ∃ nodes r, Text.width "[->\u2003né+\n]".toList < UInt32.size ∧
      registry.run (Session.tokenizeBy "brainfuck" "[->\u2003né+\n]") =
        some (.ok (.ok nodes), r) ∧
      nodes.map Node.chunk? = [
        some ⟨some ("branching", some "important"), "[", 0, 1⟩,
        some ⟨some ("decrement", some "deleted"), "-", 1, 2⟩,
        some ⟨some ("pointer", some "keyword"), ">", 2, 3⟩,
        some ⟨none, "\u2003", 3, 6⟩,
        some ⟨some ("comment", none), "né+", 6, 10⟩,
        some ⟨none, "\n", 10, 11⟩,
        some ⟨some ("branching", some "important"), "]", 11, 12⟩] := by
  obtain ⟨nodes, r, hrun, hchunks, -⟩ :=
    tokenize_eq_lex (show Text.width "[->\u2003né+\n]".toList < UInt32.size by decide)
  refine ⟨nodes, r, by decide, hrun, ?_⟩
  rw [hchunks]
  decide +kernel

end Languages.Brainfuck

end Highlight
