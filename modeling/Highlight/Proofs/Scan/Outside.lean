import Highlight.Proofs.Compose.Outside
import Highlight.Proofs.Scan.Emission
import Highlight.Proofs.Scan.Lockstep

/-!
What the grammars inside patterns have no part in. Two grammars of the same headings scan in
lockstep, so that a text has the same nodes by both, apart from the children of nodes whose patterns
have different grammars inside (`Grammar.tokenize_outside`).
-/

namespace Highlight

/-- Nodes that differ at most in their children. -/
inductive Node.SameOutside : Node → Node → Prop
  | literal (text : String) (range : TextRange) :
      Node.SameOutside (.literal text range) (.literal text range)
  | matched (name : String) (label : Option String) (text : String) (range : TextRange)
      (children others : List Node) :
      Node.SameOutside (.matched ⟨name, label, text, range, children⟩)
        (.matched ⟨name, label, text, range, others⟩)

/-- By two grammars a text has nodes that differ at most in their children. Corresponding matched
nodes are emitted by patterns at one position for one hit, and are the same altogether if these
have the same grammar inside. -/
def Grammar.AgreeOutside [Regex.Searcher] (g other : Grammar) (text : String) : Prop :=
  ∃ nodes others, g.tokenize text = .ok nodes ∧ other.tokenize text = .ok others ∧
    List.Forall₂ Node.SameOutside nodes others ∧
    ∀ matched matched', (matched, matched') ∈
        (nodes.filterMap Node.matched?).zip (others.filterMap Node.matched?) →
      ∃ entry entry' hit, (entry, entry') ∈ g.entries.zip other.entries ∧
        g.Emits text entry hit matched ∧ other.Emits text entry' hit matched' ∧
        (entry.2.inside = entry'.2.inside → matched = matched')

theorem Node.SameOutside.literals (nodes : List Node) (h : ∀ node ∈ nodes, node.isLiteral = true) :
    List.Forall₂ Node.SameOutside nodes nodes := by
  refine List.forall₂_same.mpr fun node hmem => ?_
  cases node with
  | literal text range => exact .literal text range
  | matched token => cases h _ hmem

theorem Node.matched?_of_sameOutside {nodes others : List Node}
    (h : List.Forall₂ Node.SameOutside nodes others) :
    List.Forall₂ (fun matched matched' => Node.SameOutside (.matched matched) (.matched matched'))
      (nodes.filterMap Node.matched?) (others.filterMap Node.matched?) := by
  induction h with
  | nil => exact .nil
  | cons hnode _ ih =>
      cases hnode with
      | literal => exact ih
      | matched name label text range children others =>
          exact .cons (.matched name label text range children others) ih

/-- What corresponds in the second lists of two pairings that run along each other corresponds in
the first ones. -/
theorem exists_mem_zip_of_mem_zip {α β γ δ : Type} {R : α → β → Prop} {xs : List α} {ys : List β}
    {zs : List γ} {ws : List δ} (h : List.Forall₂ R xs ys) (hzs : zs.length = xs.length)
    (hws : ws.length = ys.length) {z : γ} {w : δ} (hmem : (z, w) ∈ zs.zip ws) :
    ∃ x y, R x y ∧ (x, z) ∈ xs.zip zs ∧ (y, w) ∈ ys.zip ws := by
  obtain ⟨i, hi, heq⟩ := List.getElem_of_mem hmem
  rw [List.length_zip] at hi
  rw [List.getElem_zip, Prod.mk.injEq] at heq
  obtain ⟨rfl, rfl⟩ := heq
  have hx : i < xs.length := by omega
  have hy : i < ys.length := by omega
  refine ⟨xs[i], ys[i], h.get hx hy, ?_, ?_⟩
  · exact List.mem_iff_getElem.mpr ⟨i, by rw [List.length_zip]; omega, by rw [List.getElem_zip]⟩
  · exact List.mem_iff_getElem.mpr ⟨i, by rw [List.length_zip]; omega, by rw [List.getElem_zip]⟩

namespace Forest

/-- The tokens of one hit by two rules of one name and label. -/
theorem sameOutside_token {base : Nat} {rule other : Rule} {hit : Hit} {c d e : Cursor}
    {node node' : Node} (htoken : rule.token = other.token) (hlabel : rule.label = other.label)
    (h : token base rule hit c = .ok (node, d)) (h' : token base other hit c = .ok (node', e)) :
    e = d ∧ node.SameOutside node' := by
  obtain ⟨text, matched, rfl, hread, hmade⟩ := exists_tokenOf_of_token_eq_ok h
  obtain ⟨text', matched', rfl, hread', hmade'⟩ := exists_tokenOf_of_token_eq_ok h'
  cases hread.symm.trans hread'
  have hname : matched'.name = matched.name := by rw [hmade.name_eq, hmade'.name_eq, htoken]
  have hlabel' : matched'.label = matched.label := by rw [hmade.label_eq, hmade'.label_eq, hlabel]
  have htext : matched'.text = matched.text := hmade'.text_eq.trans hmade.text_eq.symm
  have hrange : matched'.range = matched.range :=
    Except.ok.inj (hmade'.range_eq.symm.trans hmade.range_eq)
  cases matched
  cases matched'
  simp only at hname hlabel' htext hrange
  subst hname hlabel' htext hrange
  exact ⟨rfl, .matched _ _ _ _ _ _⟩

/-- Steps in lockstep make nodes that differ at most in their children. -/
theorem sameOutside_build {R : Rule → Rule → Prop} {base : Nat} {steps steps' : List Step}
    {run : Run} {nodes others : List Node}
    (hR : ∀ rule other, R rule other → rule.token = other.token ∧ rule.label = other.label)
    (hsteps : List.Forall₂ (Step.Twins R) steps steps') (h : build base run steps = .ok nodes)
    (h' : build base run steps' = .ok others) : List.Forall₂ Node.SameOutside nodes others := by
  -- Runs take in text up to offsets that the hits give, so both builds go on with the same run.
  induction hsteps generalizing run nodes others with
  | nil =>
      cases h.symm.trans h'
      exact Node.SameOutside.literals nodes (Run.isLiteral_of_literal h)
  | cons htwins _ ih =>
      cases htwins with
      | skip stop =>
          obtain ⟨run', hextend, h⟩ := exists_of_bind_eq_ok h
          obtain ⟨run'', hextend', h'⟩ := exists_of_bind_eq_ok h'
          cases hextend.symm.trans hextend'
          exact ih h h'
      | take hit hrule =>
          obtain ⟨run', before, node, place, after, hextend, hbefore, htoken, hafter, rfl⟩ :=
            exists_of_build_take h
          obtain ⟨run'', before', node', place', after', hextend', hbefore', htoken', hafter',
            rfl⟩ := exists_of_build_take h'
          cases hextend.symm.trans hextend'
          cases hbefore.symm.trans hbefore'
          obtain ⟨hname, hlabel⟩ := hR _ _ hrule
          obtain ⟨rfl, hnode⟩ := sameOutside_token hname hlabel htoken htoken'
          refine List.rel_append ?_ (.cons hnode (ih hafter hafter'))
          exact Node.SameOutside.literals before (Run.isLiteral_of_literal hbefore)

end Forest

theorem Step.takes_twins {R : Rule → Rule → Prop} {steps steps' : List Step}
    (h : List.Forall₂ (Step.Twins R) steps steps') :
    List.Forall₂ (fun take take' => R take.1 take'.1 ∧ take.2 = take'.2) (Step.takes steps)
      (Step.takes steps') := by
  induction h with
  | nil => exact .nil
  | cons htwins _ ih =>
      cases htwins with
      | skip => exact ih
      | take hit hrule => exact .cons ⟨hrule, rfl⟩ ih

theorem Scan.lockstep_of_forall₂ {R : Rule → Rule → Prop} {rules others : List Rule}
    (h : List.Forall₂ R rules others) (text : List Char) :
    Lockstep R text (rules.map Lane.ofRule) (others.map Lane.ofRule) := by
  induction h with
  | nil => exact .nil
  | cons hrule _ ih => exact .both ⟨hrule, rfl⟩ ih

namespace Grammar

variable {g other : Grammar}

theorem headings_eq_map_entries (g : Grammar) :
    g.headings = g.entries.map fun entry => entry.2.heading entry.1.name := by
  simp only [headings, Token.headings, entries, List.map_flatMap, List.map_map,
    Function.comp_def]

/-- Grammars of the same headings have entries of the same headings, one by one. -/
theorem entries_along (h : g.headings = other.headings) :
    List.Forall₂ (fun entry entry' : Token × Pattern =>
      entry.2.heading entry.1.name = entry'.2.heading entry'.1.name) g.entries other.entries := by
  have hsame : List.Forall₂ (· = ·) g.headings other.headings := by
    rw [h]
    exact List.forall₂_same.mpr fun _ _ => rfl
  rw [headings_eq_map_entries, headings_eq_map_entries] at hsame
  simpa only [List.forall₂_map_left_iff, List.forall₂_map_right_iff] using hsame

section Searching

variable [Regex.Searcher]

/-- Rules of patterns at one position of two grammars. -/
def RulesAlong (g other : Grammar) (rule rule' : Rule) : Prop :=
  ∃ entry entry', (entry, entry') ∈ g.entries.zip other.entries ∧
    entry.2.rule entry.1.name = rule ∧ entry'.2.rule entry'.1.name = rule'

theorem rulesAlong_rules (h : g.headings = other.headings) :
    List.Forall₂ (g.RulesAlong other) g.rules other.rules := by
  rw [rules_eq_map_entries, rules_eq_map_entries]
  simp only [List.forall₂_map_left_iff, List.forall₂_map_right_iff]
  exact List.forall₂_iff_zip.mpr
    ⟨(entries_along h).length_eq, fun hmem => ⟨_, _, hmem, rfl, rfl⟩⟩

theorem RulesAlong.heading_eq (h : g.headings = other.headings) {rule rule' : Rule}
    (hrules : g.RulesAlong other rule rule') :
    rule.token = rule'.token ∧ rule.label = rule'.label ∧ rule.FindsAs rule' := by
  obtain ⟨⟨token, pattern⟩, ⟨token', pattern'⟩, hmem, rfl, rfl⟩ := hrules
  have hheading := List.forall₂_zip (entries_along h) hmem
  simp only [Pattern.heading, Heading.mk.injEq] at hheading
  obtain ⟨hname, hsource, hflags, hlookbehind, hglobal, hlabel⟩ := hheading
  have hregex : pattern.regex = pattern'.regex := Regex.ext hsource hflags
  refine ⟨by simpa using hname, by simpa using hlabel, ?_, by simpa using hglobal⟩
  rw [Pattern.rule_find, Pattern.rule_find]
  funext c
  rw [Pattern.hit?, Pattern.hit?, hregex, hlookbehind]

/-- Two nodes for one hit that differ at most in their children have the same children if the
patterns have the same grammar inside. -/
theorem matched_eq_of_standsFor {name name' : String} {pattern pattern' : Pattern} {hit : Hit}
    {matched matched' : Matched} (h : matched.StandsFor 0 (pattern.rule name, hit))
    (h' : matched'.StandsFor 0 (pattern'.rule name', hit))
    (hsame : Node.SameOutside (.matched matched) (.matched matched'))
    (hinside : pattern.inside = pattern'.inside) : matched = matched' := by
  have hfilled := h.filledBy
  have hfilled' := h'.filledBy
  cases hsame with
  | matched name label text range children others =>
      have hchildren : children = others := by
        cases hgrammar : pattern.inside with
        | none =>
            rw [hgrammar] at hinside
            exact (hfilled.childless hgrammar).trans (hfilled'.childless hinside.symm).symm
        | some inner =>
            rw [hgrammar] at hinside
            exact Except.ok.inj ((hfilled.children inner hgrammar).symm.trans
              (hfilled'.children inner hinside.symm))
      rw [hchildren]

variable [Regex.LawfulSearcher]

/-- Grammars of the same headings agree in all that they make of a text, but for the children of
nodes whose patterns have different grammars inside. -/
theorem agreeOutside_of_headings_eq (h : g.headings = other.headings) {text : String}
    (hwidth : Text.width text.toList < UInt32.size) : g.AgreeOutside other text := by
  have hwidth' : 0 + Text.width text.toList < UInt32.size := by rwa [Nat.zero_add]
  obtain ⟨nodes, hnodes, -⟩ := g.exists_tokenize hwidth
  obtain ⟨others, hothers, -⟩ := other.exists_tokenize hwidth
  obtain ⟨steps, steps', hsteps, hsteps', htwins⟩ :=
    Scan.steps_lockstep (fun _ _ hrules => (hrules.heading_eq h).2.2) (fun _ => sound_of_mem_rules)
      (Scan.lockstep_of_forall₂ (rulesAlong_rules h) text.toList)
  obtain ⟨-, hstands⟩ := standsFor_of_steps hwidth' hsteps hnodes
  obtain ⟨-, hstands'⟩ := standsFor_of_steps hwidth' hsteps' hothers
  have hsame : List.Forall₂ Node.SameOutside nodes others :=
    Forest.sameOutside_build
      (fun _ _ hrules => ⟨(hrules.heading_eq h).1, (hrules.heading_eq h).2.1⟩)
      htwins (Forest.build_of_steps hsteps hnodes) (Forest.build_of_steps hsteps' hothers)
  refine ⟨nodes, others, hnodes, hothers, hsame, ?_⟩
  intro matched matched' hmem
  obtain ⟨⟨rule, hit⟩, ⟨rule', hit'⟩, ⟨hrules, hhit⟩, hzip, hzip'⟩ :=
    exists_mem_zip_of_mem_zip (Step.takes_twins htwins) hstands.length_eq.symm
      hstands'.length_eq.symm hmem
  simp only at hrules hhit
  subst hhit
  obtain ⟨entry, entry', hentry, rfl, rfl⟩ := hrules
  obtain ⟨hleft, hright⟩ := List.of_mem_zip hentry
  refine ⟨entry, entry', hit, hentry, ⟨hleft, steps, nodes, hsteps, hnodes, hzip⟩,
    ⟨hright, steps', others, hsteps', hothers, hzip'⟩, ?_⟩
  exact matched_eq_of_standsFor (List.forall₂_zip hstands hzip) (List.forall₂_zip hstands' hzip')
    (List.forall₂_zip (Node.matched?_of_sameOutside hsame) hmem)

/-- What is inside patterns has no part in the nodes of a text, down to their children, and so edits
at nested paths do not change them either. -/
theorem tokenize_outside (g : Grammar) (text : String)
    (hwidth : Text.width text.toList < UInt32.size) :
    (∀ other : Grammar, g.headings = other.headings → g.AgreeOutside other text) ∧
      (∀ side anchor tokens other, '/' ∈ anchor.toList →
        g.insert side anchor tokens = .ok other → g.AgreeOutside other text) ∧
      ∀ path patterns other, '/' ∈ path.toList →
        g.replacePatterns path patterns = .ok other → g.AgreeOutside other text := by
  refine ⟨fun other h => agreeOutside_of_headings_eq h hwidth, ?_, ?_⟩
  · intro side anchor tokens other hnested hinsert
    exact agreeOutside_of_headings_eq (headings_of_insert hnested hinsert).symm hwidth
  · intro path patterns other hnested hreplace
    exact agreeOutside_of_headings_eq (headings_of_replacePatterns hnested hreplace).symm hwidth

end Searching

/-- A token put in front of the dot inside a name shows nowhere but below the name. -/
theorem tokenize_outside_dottedName :
    ∃ g part other, dottedName = .ok g ∧ Token.compile "part" [.plain "[a-z]+"] = .ok part ∧
      g.insert .before "name/dot" [part] = .ok other ∧ g.AgreeOutside other "é new a.b ü" ∧
      g.tokenize "é new a.b ü" ≠ other.tokenize "é new a.b ü" := by
  let names := fun (tokens : Except Fault (List Node)) =>
    tokens.toOption.map fun nodes => (Node.leavesOf nodes).map (·.name?)
  have hcheck : (dottedName.toOption.bind fun g =>
      (Token.compile "part" [.plain "[a-z]+"]).toOption.bind fun part =>
        (g.insert .before "name/dot" [part]).toOption.map fun other =>
          (names (g.tokenize "é new a.b ü"), names (other.tokenize "é new a.b ü"))) =
      some (some [none, none, some "dot", none, none],
        some [none, some "part", some "dot", some "part", none]) := by decide +kernel
  obtain ⟨g, hg, hcheck⟩ := Option.bind_eq_some_iff.mp hcheck
  obtain ⟨part, hpart, hcheck⟩ := Option.bind_eq_some_iff.mp hcheck
  obtain ⟨other, hother, hnames⟩ := Option.map_eq_some_iff.mp hcheck
  have hinsert := eq_ok_of_toOption_eq_some hother
  refine ⟨g, part, other, eq_ok_of_toOption_eq_some hg, eq_ok_of_toOption_eq_some hpart, hinsert,
    ?_, ?_⟩
  · exact (g.tokenize_outside "é new a.b ü" (by decide)).2.1 .before "name/dot" [part] other
      (by decide) hinsert
  · intro heq
    obtain ⟨hbefore, hafter⟩ := Prod.mk.inj hnames
    rw [heq, hafter] at hbefore
    simp at hbefore

end Grammar

end Highlight
