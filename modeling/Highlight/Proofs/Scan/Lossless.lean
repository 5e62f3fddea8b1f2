import Highlight.Grammar.Draft
import Highlight.Proofs.Scan.Rules
import Highlight.Proofs.Scan.Runs
import Highlight.Proofs.Tree.Spelling

/-!
Nothing is lost in tokenizing. The nodes made from the steps of a scan spell out its text
(`Forest.exists_build`), and so do those that a grammar makes of any text with offsets of 32 bits
(`Grammar.spelling_rules`).
-/

namespace Highlight

/-- A way to tokenize that never fails on a text whose offsets fit, and whose nodes spell it
out. -/
def Tokenizer.Spelling (tokenize : Tokenizer) : Prop :=
  ∀ base text, base + Text.width text < UInt32.size →
    ∃ nodes, tokenize base text = .ok nodes ∧ Node.Spells base text nodes

def Rule.Spelling (rule : Rule) : Prop :=
  ∀ tokenize, rule.inside = some tokenize → tokenize.Spelling

namespace Forest

namespace Run

theorem spells_literal {run : Run} {base : Nat} {nodes : List Node} (h : run.Sound)
    (hlt : base + Text.width run.place.text < UInt32.size)
    (hliteral : run.literal base = .ok nodes) {back : List Char} {rest : List Node}
    (hrest : Node.Spells (base + run.place.offset) back rest) :
    Node.Spells (base + run.first.offset) (run.text.reverse ++ back) (nodes ++ rest) := by
  have hoffset := h.offset_eq
  rcases literal_cases h hlt with ⟨hnil, hok⟩ | ⟨range, hrange, hok⟩
  · rw [hok] at hliteral
    cases hliteral
    rw [hoffset] at hrest
    simpa [hnil] using hrest
  · rw [hok] at hliteral
    cases hliteral
    have hstop := hrange.stop
    rw [hoffset, ← Nat.add_assoc] at hrest hstop
    have hcovers : (Node.literal (String.ofList run.text.reverse) range).Covers
        (base + run.first.offset) run.text.reverse :=
      ⟨rfl, by simpa using hrange.text_ne_nil, hrange.start, hstop⟩
    exact .cons hcovers (fun hne => absurd rfl hne) hrest

end Run

theorem exists_token {base : Nat} {rule : Rule} {hit : Hit} {c d : Cursor} {text : List Char}
    (hrule : rule.Spelling) (hstart : c.offset = hit.contextEnd)
    (hemits : hit.contextEnd < hit.stop) (hread : c.readTo? hit.stop = some (text, d))
    (hlt : base + Text.width c.text < UInt32.size) :
    ∃ node, token base rule hit c = .ok (node, d) ∧ node.Covers (base + c.offset) text ∧
      (node.children ≠ [] → Node.Spells (base + c.offset) text node.children) := by
  have hwidth := Cursor.offset_add_width_of_readTo? hread
  have hstop : base + hit.stop < UInt32.size := (Cursor.boundary_of_readTo? hread).add_lt hlt
  obtain ⟨range, hrange, hfirst, hlast⟩ := exists_rangeAt hit.contextEnd_le_stop hstop
  have hchildren : ∃ children,
      token base rule hit c = .ok (.matched ⟨rule.token, rule.label, String.ofList text, range,
        children⟩, d) ∧
      (children ≠ [] → Node.Spells (base + c.offset) text children) := by
    cases hinside : rule.inside with
    | none =>
        refine ⟨[], ?_, fun hne => absurd rfl hne⟩
        simp only [token, hread, hinside, hrange]
        rfl
    | some tokenize =>
        obtain ⟨children, hok, hspells⟩ :=
          hrule tokenize hinside (base + hit.contextEnd) text (by omega)
        refine ⟨children, ?_, fun _ => hstart ▸ hspells⟩
        simp only [token, hread, hinside, hok, hrange]
        rfl
  obtain ⟨children, htoken, hspells⟩ := hchildren
  have hne : text ≠ [] := by
    rintro rfl
    simp only [Text.width_nil] at hwidth
    omega
  refine ⟨_, htoken, ⟨rfl, hne, by rw [hstart]; exact hfirst, ?_⟩, hspells⟩
  show range.stop.toNat = base + c.offset + Text.width text
  omega

/-- The nodes for steps that lead to the end of the text spell out what the run has taken in and
all that follows. -/
theorem exists_build {rules : List Rule} {base : Nat} {steps : List Step} {c d : Cursor}
    (hrules : ∀ rule ∈ rules, rule.Spelling) (hpath : Path rules c steps d)
    (hend : d.after = []) (hlt : base + Text.width c.text < UInt32.size) {run : Run}
    (hrun : run.Sound) (hplace : run.place = c) :
    ∃ nodes, build base run steps = .ok nodes ∧
      Node.Spells (base + run.first.offset) run.first.after nodes := by
  induction hpath generalizing run with
  | nil c =>
      subst hplace
      obtain ⟨nodes, hliteral⟩ := Run.exists_literal hrun hlt
      refine ⟨nodes, by rw [build, hliteral], ?_⟩
      rw [hrun.after, hend, ← List.append_nil nodes]
      exact Run.spells_literal hrun hlt hliteral (.nil _)
  | @skip c d e char steps hnext hrest ih =>
      subst hplace
      have hle := Cursor.le_of_next? hnext
      have htext : d.text = run.place.text := Cursor.text_eq_of_le hle
      obtain ⟨run', hextend⟩ :=
        Run.exists_extend hrun (Cursor.offset_le_of_le hle) (Cursor.boundary_offset htext) hlt
      obtain ⟨hsound, hfirst, -⟩ := hrun.extend hextend
      obtain ⟨nodes, hbuild, hspells⟩ :=
        ih hend (htext ▸ hlt) hsound (hrun.place_of_extend_next hnext hextend)
      refine ⟨nodes, ?_, hfirst ▸ hspells⟩
      rw [build, hextend]
      exact hbuild
  | @take c d e rule hit steps hmem hspans hrest ih =>
      subst hplace
      have hstart : run.place.offset ≤ hit.contextEnd := hspans.start ▸ hit.start_le_contextEnd
      obtain ⟨run', hextend⟩ := Run.exists_extend hrun hstart hspans.contextEnd hlt
      obtain ⟨hsound, hfirst, hle', hoffset⟩ := hrun.extend hextend
      have htext : run'.place.text = run.place.text := Cursor.text_eq_of_le hle'
      obtain ⟨before, hliteral⟩ := Run.exists_literal hsound (htext ▸ hlt)
      obtain ⟨text, hread⟩ := hrun.exists_readTo?_of_extend_spans hspans hextend
      obtain ⟨node, htoken, hcovers, hchildren⟩ :=
        exists_token (hrules rule hmem) hoffset hspans.emits hread (htext ▸ hlt)
      have htext' : d.text = run.place.text := Cursor.text_eq_of_le hspans.le
      obtain ⟨after, hbuild, hspells⟩ := ih hend (htext' ▸ hlt) (Run.sound_start d) rfl
      refine ⟨before ++ node :: after, ?_, ?_⟩
      · rw [build, hextend]
        simp only [hliteral, htoken, hbuild, bind, Except.bind, pure, Except.pure]
      · obtain ⟨hafter, hbefore', -⟩ := Cursor.readTo?_eq_some_iff.mp hread
        rw [← hfirst, hsound.after, hafter]
        apply Run.spells_literal hsound (htext ▸ hlt) hliteral
        apply Node.Spells.cons hcovers hchildren
        have hwidth := Cursor.offset_eq_of_append hbefore'
        rw [Nat.add_assoc, ← hwidth]
        exact hspells

theorem spelling_ofRules {rules : List Rule} (hsound : ∀ rule ∈ rules, rule.Sound)
    (hspelling : ∀ rule ∈ rules, rule.Spelling) : Tokenizer.Spelling (ofRules rules) := by
  intro base text hlt
  obtain ⟨steps, d, hsteps, hpath, hend⟩ := Scan.exists_steps hsound text
  obtain ⟨nodes, hbuild, hspells⟩ :=
    exists_build hspelling hpath hend (by rwa [Cursor.start_text]) (Run.sound_start _) rfl
  refine ⟨nodes, ?_, hspells⟩
  simp only [ofRules, hsteps]
  exact hbuild

end Forest

namespace Grammar

section Searching

variable [Regex.Searcher] [Regex.LawfulSearcher]

theorem spelling_rules (g : Grammar) : Tokenizer.Spelling (Forest.ofRules g.rules) := by
  induction g using inside_induction with
  | step g ih =>
      apply Forest.spelling_ofRules
      · intro rule hrule
        exact sound_of_mem_rules hrule
      · intro rule hrule tokenize hinside
        obtain ⟨token, htoken, pattern, hpattern, rfl⟩ := mem_rules_iff.mp hrule
        rw [Pattern.rule_inside] at hinside
        obtain ⟨h, hh, rfl⟩ := Option.map_eq_some_iff.mp hinside
        exact ih token htoken pattern hpattern h hh

theorem exists_tokenize (g : Grammar) {text : String}
    (hwidth : Text.width text.toList < UInt32.size) :
    ∃ nodes, g.tokenize text = .ok nodes ∧ Node.Spells 0 text.toList nodes :=
  g.spelling_rules 0 text.toList (by rwa [Nat.zero_add])

/-- Tokenizing does not fail, and nothing of the text is lost: the leaves give it back, the
ranges tile it, and the same holds of each node with its own part of the text. -/
theorem tokenize_lossless (g : Grammar) (text : String)
    (hwidth : Text.width text.toList < UInt32.size) :
    ∃ nodes, g.tokenize text = .ok nodes ∧ concatText nodes = text ∧
      TextRange.Tile 0 (nodes.map (·.range)) (Text.width text.toList) ∧
      ∀ node : Node, node.OccursIn nodes →
        Text.slice? text.toList node.range.start.toNat node.range.stop.toNat =
          some node.text.toList ∧
        (node.children ≠ [] → TextRange.Tile node.range.start.toNat
          (node.children.map (·.range)) node.range.stop.toNat) ∧
        String.join (node.leaves.map (·.text)) = node.text := by
  obtain ⟨nodes, htokenize, hspells⟩ := g.exists_tokenize hwidth
  refine ⟨nodes, htokenize, ?_, ?_, ?_⟩
  · rw [hspells.concatText_eq, String.ofList_toList]
  · have htile := hspells.tile
    rwa [Nat.zero_add] at htile
  · intro node hoccurs
    exact ⟨hspells.slice?_of_occursIn hoccurs, hspells.tile_of_occursIn hoccurs,
      hspells.join_leaves_of_occursIn hoccurs⟩

end Searching

/-- Names behind `new`, divided at their dots. -/
def dottedName : Except GrammarError Grammar := do
  let path ← Grammar.compile "path" [("dot", [.plain "\\."])]
  let options : Pattern.Options := { lookbehind := true, inside := some path }
  Grammar.compile "call" [("name", [⟨"(new )[a-z.]+", options⟩])]

theorem tokenize_lossless_dottedName :
    ∃ g nodes, dottedName = .ok g ∧ g.tokenize "é new a.b ü" = .ok nodes ∧
      concatText nodes = "é new a.b ü" ∧ nodes.map (·.text) = ["é new ", "a.b", " ü"] := by
  have htexts : (dottedName.toOption.bind fun g =>
      (g.tokenize "é new a.b ü").toOption.map (·.map (·.text))) =
        some ["é new ", "a.b", " ü"] := by decide +kernel
  cases hg : dottedName with
  | error e => simp [hg, Except.toOption] at htexts
  | ok g =>
      obtain ⟨nodes, hnodes, hconcat, -⟩ := g.tokenize_lossless "é new a.b ü" (by decide)
      refine ⟨g, nodes, rfl, hnodes, hconcat, ?_⟩
      simpa [hg, hnodes, Except.toOption] using htexts

end Grammar

end Highlight
