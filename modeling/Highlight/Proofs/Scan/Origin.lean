import Highlight.Proofs.Scan.Position
import Mathlib.Data.List.Forall2

/-!
Where the nodes of a tokenization come from. The matched nodes that a grammar makes of a text
stand for the hits that its scan takes, one for each and in order; what is below them comes in the
same way from the grammar inside the pattern of the hit (`Grammar.Makes`). So what stands below a
node depends on nothing but that grammar and the text of the node, up to the place
(`Grammar.tokenize_compositional`).
-/

namespace Highlight

/-- The hits that steps take, with the rules that they are hits of, in order. -/
def Step.takes (steps : List Step) : List (Rule × Hit) :=
  steps.filterMap fun
    | .skip _ => none
    | .take rule hit => some (rule, hit)

theorem Step.takes_append (steps steps' : List Step) :
    takes (steps ++ steps') = takes steps ++ takes steps' :=
  List.filterMap_append

/-- Among the nodes that a grammar makes of a text, or anywhere below them, a matched node is what
a pattern of a token makes of one of its hits. -/
inductive Grammar.Makes [Regex.Searcher] :
    Grammar → List Char → List Node → Token → Pattern → Matched → Prop
  /-- The matched nodes stand for the hits that the scan takes, in order. -/
  | top {g : Grammar} {text : List Char} {steps : List Step} {nodes : List Node} {token : Token}
      {pattern : Pattern} {hit : Hit} {matched : Matched} (token_mem : token ∈ g.tokens)
      (pattern_mem : pattern ∈ token.patterns) (steps_eq : Scan.steps g.rules text = .ok steps)
      (mem : ((pattern.rule token.name, hit), matched) ∈
        (Step.takes steps).zip (nodes.filterMap Node.matched?)) :
      Grammar.Makes g text nodes token pattern matched
  /-- The children of a matched node are made of its text by the grammar inside the pattern. -/
  | inside {g h : Grammar} {text : List Char} {nodes : List Node} {outer token : Token}
      {outerPattern pattern : Pattern} {parent matched : Matched}
      (makes : Grammar.Makes g text nodes outer outerPattern parent)
      (inside_eq : outerPattern.inside = some h)
      (below : Grammar.Makes h parent.text.toList parent.children token pattern matched) :
      Grammar.Makes g text nodes token pattern matched

/-- A matched node is the token of a hit of a rule, in a text that stands at `base`. -/
def Matched.StandsFor (base : Nat) (take : Rule × Hit) (matched : Matched) : Prop :=
  ∃ text, text ≠ [] ∧ take.2.contextEnd + Text.width text = take.2.stop ∧
    base + take.2.stop < UInt32.size ∧ Forest.TokenOf base take.1 take.2 text matched

/-- A matched node has the range of the token of its hit. -/
theorem Matched.StandsFor.ends {base : Nat} {take : Rule × Hit} {matched : Matched}
    (h : matched.StandsFor base take) :
    matched.range.start.toNat = base + take.2.contextEnd ∧
      matched.range.stop.toNat = base + take.2.stop := by
  obtain ⟨_, -, -, hstop, htoken⟩ := h
  exact Forest.ends_of_rangeAt_eq_ok take.2.contextEnd_le_stop hstop htoken.range_eq

/-- A matched node has the children that a pattern gives it. -/
structure Matched.FilledBy [Regex.Searcher] (pattern : Pattern) (matched : Matched) : Prop where
  ne_nil : matched.text.toList ≠ []
  fits : matched.range.start.toNat + Text.width matched.text.toList < UInt32.size
  children : ∀ h, pattern.inside = some h →
    Forest.ofRules h.rules matched.range.start.toNat matched.text.toList = .ok matched.children
  childless : pattern.inside = none → matched.children = []

theorem Matched.StandsFor.filledBy [Regex.Searcher] {base : Nat} {name : String}
    {pattern : Pattern} {hit : Hit} {matched : Matched}
    (h : matched.StandsFor base (pattern.rule name, hit)) :
    matched.FilledBy pattern := by
  obtain ⟨text, hne, hwidth, hstop, htoken⟩ := h
  have htext : matched.text.toList = text := by rw [htoken.text_eq, String.toList_ofList]
  have hstart : matched.range.start.toNat = base + hit.contextEnd :=
    (Forest.ends_of_rangeAt_eq_ok hit.contextEnd_le_stop hstop htoken.range_eq).1
  have hfits : matched.range.start.toNat + Text.width matched.text.toList < UInt32.size := by
    rw [htext, hstart]
    simp only at hwidth hstop
    omega
  refine ⟨by rwa [htext], hfits, ?_, ?_⟩
  · intro inner hinner
    rw [htext, hstart]
    exact htoken.children_eq _ (by rw [Pattern.rule_inside, hinner]; rfl)
  · intro hnone
    exact htoken.childless (by rw [Pattern.rule_inside, hnone]; rfl)

theorem Path.mem_rules_of_mem_takes {rules : List Rule} {c d : Cursor} {steps : List Step}
    (h : Path rules c steps d) : ∀ take ∈ Step.takes steps, take.1 ∈ rules := by
  induction h with
  | nil => exact fun take hmem => nomatch hmem
  | skip _ _ ih => exact ih
  | take hrule _ _ ih =>
      intro take hmem
      rcases List.mem_cons.mp hmem with rfl | hmem
      · exact hrule
      · exact ih take hmem

/-- The hits on a path lie between its ends. -/
theorem Path.bounds_of_mem_takes {rules : List Rule} {c d : Cursor} {steps : List Step}
    (h : Path rules c steps d) :
    ∀ take ∈ Step.takes steps, c.offset ≤ take.2.start ∧ take.2.stop ≤ d.offset := by
  induction h with
  | nil => exact fun take hmem => nomatch hmem
  | skip hnext _ ih =>
      intro take hmem
      obtain ⟨hstart, hstop⟩ := ih take hmem
      exact ⟨Nat.le_trans (Nat.le_of_lt (Cursor.offset_lt_of_next? hnext)) hstart, hstop⟩
  | take _ hspans hrest ih =>
      intro take hmem
      rcases List.mem_cons.mp hmem with rfl | hmem
      · exact ⟨Nat.le_of_eq hspans.start.symm, hspans.stop ▸ Cursor.offset_le_of_le hrest.le⟩
      · obtain ⟨hstart, hstop⟩ := ih take hmem
        exact ⟨Nat.le_trans (Cursor.offset_le_of_le hspans.le) hstart, hstop⟩

theorem exists_mem_zip_of_forall₂ {α β : Type} {R : α → β → Prop} {xs : List α} {ys : List β}
    (h : List.Forall₂ R xs ys) {y : β} (hy : y ∈ ys) : ∃ x, (x, y) ∈ xs.zip ys := by
  induction h with
  | nil => cases hy
  | @cons first other xs ys _ _ ih =>
      rcases List.mem_cons.mp hy with rfl | hy
      · exact ⟨first, List.mem_cons_self⟩
      · obtain ⟨x, hx⟩ := ih hy
        exact ⟨x, List.mem_cons_of_mem _ hx⟩

namespace Forest

theorem filterMap_matched?_of_literal {run : Run} {base : Nat} {nodes : List Node}
    (h : run.literal base = .ok nodes) : nodes.filterMap Node.matched? = [] := by
  rw [List.filterMap_eq_nil_iff]
  intro node hmem
  cases node with
  | literal => rfl
  | matched token => cases Run.isLiteral_of_literal h _ hmem

/-- The nodes for the steps of a path have one matched node for each hit. -/
theorem standsFor_of_build {rules : List Rule} {base : Nat} {c d : Cursor} {steps : List Step}
    {run : Run} {nodes : List Node} (hpath : Path rules c steps d)
    (hlt : base + Text.width c.text < UInt32.size) (hsound : run.Sound) (hplace : run.place = c)
    (h : build base run steps = .ok nodes) :
    List.Forall₂ (fun take matched => matched.StandsFor base take) (Step.takes steps)
      (nodes.filterMap Node.matched?) := by
  induction hpath generalizing run nodes with
  | nil c =>
      subst hplace
      rw [filterMap_matched?_of_literal h]
      exact .nil
  | @skip c d e char steps hnext hrest ih =>
      subst hplace
      obtain ⟨run', hextend, hbuild⟩ := exists_of_bind_eq_ok h
      obtain ⟨hsound', -⟩ := hsound.extend hextend
      have htext : d.text = run.place.text := Cursor.text_eq_of_le (Cursor.le_of_next? hnext)
      exact ih (htext ▸ hlt) hsound' (hsound.place_of_extend_next hnext hextend) hbuild
  | @take c d e rule hit steps hmem hspans hrest ih =>
      subst hplace
      obtain ⟨run', before, node, place, after, hextend, hbefore, htoken, hafter, rfl⟩ :=
        exists_of_build_take h
      obtain ⟨-, -, hle, hoffset⟩ := hsound.extend hextend
      have htext : run'.place.text = run.place.text := Cursor.text_eq_of_le hle
      obtain ⟨text, matched, rfl, hread, hmade⟩ := exists_tokenOf_of_token_eq_ok htoken
      obtain ⟨text', hread'⟩ := hsound.exists_readTo?_of_extend_spans hspans hextend
      cases hread.symm.trans hread'
      have hwidth := Cursor.offset_add_width_of_readTo? hread
      have hstop : base + hit.stop < UInt32.size :=
        (Cursor.boundary_of_readTo? hread).add_lt (htext ▸ hlt)
      have hne : text ≠ [] := by
        rintro rfl
        have hemits := hspans.emits
        simp only [Text.width_nil] at hwidth
        omega
      have hstands : matched.StandsFor base (rule, hit) :=
        ⟨text, hne, hoffset ▸ hwidth, hstop, hmade⟩
      have htext' : d.text = run.place.text := Cursor.text_eq_of_le hspans.le
      rw [List.filterMap_append, filterMap_matched?_of_literal hbefore]
      exact .cons hstands (ih (htext' ▸ hlt) (Run.sound_start d) rfl hafter)

end Forest

namespace Grammar

section Searching

variable [Regex.Searcher] [Regex.LawfulSearcher]
variable {g : Grammar} {base : Nat} {text : List Char} {nodes : List Node}

/-- The scan of a text and the matched nodes that stand for its hits. -/
theorem exists_steps_standsFor (hlt : base + Text.width text < UInt32.size)
    (h : Forest.ofRules g.rules base text = .ok nodes) :
    ∃ steps, Scan.steps g.rules text = .ok steps ∧
      (∀ take ∈ Step.takes steps, take.1 ∈ g.rules) ∧
      List.Forall₂ (fun take matched => matched.StandsFor base take) (Step.takes steps)
        (nodes.filterMap Node.matched?) := by
  obtain ⟨steps, d, hsteps, hpath, -⟩ := Scan.exists_steps (fun _ => sound_of_mem_rules) text
  refine ⟨steps, hsteps, hpath.mem_rules_of_mem_takes, ?_⟩
  exact Forest.standsFor_of_build hpath (by rwa [Cursor.start_text]) (Forest.Run.sound_start _) rfl
    (Forest.build_of_steps hsteps h)

theorem standsFor_of_steps {steps : List Step} (hlt : base + Text.width text < UInt32.size)
    (hsteps : Scan.steps g.rules text = .ok steps)
    (h : Forest.ofRules g.rules base text = .ok nodes) :
    (∀ take ∈ Step.takes steps, take.1 ∈ g.rules) ∧
      List.Forall₂ (fun take matched => matched.StandsFor base take) (Step.takes steps)
        (nodes.filterMap Node.matched?) := by
  obtain ⟨steps', hsteps', hstands⟩ := exists_steps_standsFor hlt h
  cases hsteps.symm.trans hsteps'
  exact hstands

theorem Makes.filledBy {token : Token} {pattern : Pattern} {matched : Matched}
    (h : g.Makes text nodes token pattern matched) (hlt : base + Text.width text < UInt32.size)
    (hnodes : Forest.ofRules g.rules base text = .ok nodes) : matched.FilledBy pattern := by
  induction h generalizing base with
  | top htoken hpattern hsteps hmem =>
      exact (List.forall₂_zip (standsFor_of_steps hlt hsteps hnodes).2 hmem).filledBy
  | inside _ hinside _ ihouter ihbelow =>
      have hparent := ihouter hlt hnodes
      exact ihbelow hparent.fits (hparent.children _ hinside)

/-- Each matched node stands for a hit that the scan takes by a pattern. -/
theorem exists_take_of_mem {matched : Matched} (hlt : base + Text.width text < UInt32.size)
    (hnodes : Forest.ofRules g.rules base text = .ok nodes) (hmem : .matched matched ∈ nodes) :
    ∃ steps token pattern hit, Scan.steps g.rules text = .ok steps ∧ token ∈ g.tokens ∧
      pattern ∈ token.patterns ∧
      ((pattern.rule token.name, hit), matched) ∈
        (Step.takes steps).zip (nodes.filterMap Node.matched?) := by
  obtain ⟨steps, hsteps, hrules, hall⟩ := exists_steps_standsFor hlt hnodes
  have hmatched : matched ∈ nodes.filterMap Node.matched? :=
    List.mem_filterMap.mpr ⟨_, hmem, rfl⟩
  obtain ⟨⟨rule, hit⟩, hzip⟩ := exists_mem_zip_of_forall₂ hall hmatched
  obtain ⟨token, htoken, pattern, hpattern, rfl⟩ :=
    mem_rules_iff.mp (hrules _ (List.of_mem_zip hzip).1)
  exact ⟨steps, token, pattern, hit, hsteps, htoken, hpattern, hzip⟩

theorem exists_makes_of_mem {matched : Matched} (hlt : base + Text.width text < UInt32.size)
    (hnodes : Forest.ofRules g.rules base text = .ok nodes) (hmem : .matched matched ∈ nodes) :
    ∃ token pattern, g.Makes text nodes token pattern matched := by
  obtain ⟨steps, token, pattern, hit, hsteps, htoken, hpattern, hzip⟩ :=
    exists_take_of_mem hlt hnodes hmem
  exact ⟨token, pattern, .top htoken hpattern hsteps hzip⟩

/-- Each matched node among those that a grammar makes, or below them, comes from a pattern. -/
theorem exists_makes_of_occursIn {matched : Matched} (hlt : base + Text.width text < UInt32.size)
    (hnodes : Forest.ofRules g.rules base text = .ok nodes)
    (hoccurs : (Node.matched matched).OccursIn nodes) :
    ∃ token pattern, g.Makes text nodes token pattern matched := by
  induction hoccurs generalizing g base text with
  | top hmem => exact exists_makes_of_mem hlt hnodes hmem
  | @inside nodes parent hmem hbelow ih =>
      have hne : parent.children ≠ [] := by
        intro hnil
        rw [hnil] at hbelow
        cases hbelow with
        | top hmem => cases hmem
        | inside hmem => cases hmem
      cases parent with
      | literal text range => exact absurd rfl hne
      | matched parent =>
          obtain ⟨outer, outerPattern, houter⟩ := exists_makes_of_mem hlt hnodes hmem
          have hparent := houter.filledBy hlt hnodes
          cases hinside : outerPattern.inside with
          | none => exact absurd (hparent.childless hinside) hne
          | some h =>
              obtain ⟨token, pattern, hmakes⟩ := ih hparent.fits (hparent.children h hinside)
              exact ⟨token, pattern, .inside houter hinside hmakes⟩

/-- A grammar makes the same nodes of a text wherever it stands, but for the place. So the
children of a matched node are what the grammar inside its pattern makes of the text of the node
alone, moved to the place of the node; there are children just where there is such a grammar. -/
theorem tokenize_compositional (g : Grammar) :
    (∀ base text, base + Text.width text < UInt32.size →
      ∃ nodes moved, Forest.ofRules g.rules 0 text = .ok nodes ∧
        Forest.ofRules g.rules base text = .ok moved ∧ Node.Shifted base nodes moved) ∧
      ∀ (text : String) nodes, Text.width text.toList < UInt32.size →
        g.tokenize text = .ok nodes →
          (∀ matched : Matched, (Node.matched matched).OccursIn nodes →
            ∃ token pattern, g.Makes text.toList nodes token pattern matched) ∧
          ∀ token pattern matched, g.Makes text.toList nodes token pattern matched →
            (matched.children ≠ [] ↔ pattern.inside.isSome) ∧
            ∀ h, pattern.inside = some h →
              ∃ children, h.tokenize matched.text = .ok children ∧
                Node.Shifted matched.range.start.toNat children matched.children := by
  have hmoved : ∀ (g : Grammar) base text, base + Text.width text < UInt32.size →
      ∃ nodes moved, Forest.ofRules g.rules 0 text = .ok nodes ∧
        Forest.ofRules g.rules base text = .ok moved ∧ Node.Shifted base nodes moved := by
    intro g base text hlt
    obtain ⟨nodes, hnodes, -⟩ := g.spelling_rules 0 text (by omega)
    obtain ⟨moved, hmoved, -⟩ := g.spelling_rules base text hlt
    refine ⟨nodes, moved, hnodes, hmoved, ?_⟩
    exact g.movable_rules 0 base text nodes moved (by omega) hnodes (by rwa [Nat.zero_add])
  refine ⟨hmoved g, ?_⟩
  intro text nodes hlt hnodes
  have hlt' : 0 + Text.width text.toList < UInt32.size := by omega
  refine ⟨fun matched hoccurs => exists_makes_of_occursIn hlt' hnodes hoccurs, ?_⟩
  intro token pattern matched hmakes
  have hfilled := hmakes.filledBy hlt' hnodes
  constructor
  · cases hinside : pattern.inside with
    | none => simp [hfilled.childless hinside]
    | some h =>
        obtain ⟨children, hchildren, hspells⟩ := h.spelling_rules _ _ hfilled.fits
        cases hchildren.symm.trans (hfilled.children h hinside)
        simpa using hspells.ne_nil hfilled.ne_nil
  · intro h hinside
    obtain ⟨children, moved, hchildren, hsome, hshifted⟩ := hmoved h _ _ hfilled.fits
    cases hsome.symm.trans (hfilled.children h hinside)
    exact ⟨children, hchildren, hshifted⟩

end Searching

theorem tokenize_compositional_dottedName :
    ∃ g path : Grammar, dottedName = .ok g ∧
      (∃ nodes moved, Forest.ofRules g.rules 0 "new a.b".toList = .ok nodes ∧
        Forest.ofRules g.rules 9 "new a.b".toList = .ok moved ∧ Node.Shifted 9 nodes moved) ∧
      ∃ nodes token pattern matched children, g.tokenize "é new a.b ü" = .ok nodes ∧
        g.Makes "é new a.b ü".toList nodes token pattern matched ∧ pattern.inside = some path ∧
        path.tokenize "a.b" = .ok children ∧ matched.children ≠ [] ∧
        Node.Shifted 7 children matched.children := by
  have hcheck : (dottedName.toOption.bind fun g =>
      (g.tokenize "é new a.b ü").toOption.bind fun nodes =>
        (nodes.filterMap Node.matched?).head?).any
      (fun matched => matched.text == "a.b" && matched.range.start.toNat == 7 &&
        !matched.children.isEmpty) = true := by decide +kernel
  cases hg : dottedName with
  | error e => simp [hg, Except.toOption] at hcheck
  | ok g =>
      obtain ⟨hmoved, hinside⟩ := g.tokenize_compositional
      have hwidth : Text.width "é new a.b ü".toList < UInt32.size := by decide
      obtain ⟨nodes, hnodes, -⟩ := g.exists_tokenize hwidth
      obtain ⟨horigin, hchildren⟩ := hinside _ nodes hwidth hnodes
      rw [hg] at hcheck
      simp only [Except.toOption, hnodes, Option.bind_some, Option.any_eq_true, Bool.and_eq_true,
        beq_iff_eq, Bool.not_eq_true', List.isEmpty_eq_false_iff] at hcheck
      obtain ⟨matched, hhead, ⟨htext, hstart⟩, hne⟩ := hcheck
      obtain ⟨node, hnode, hmatched⟩ := List.mem_filterMap.mp (List.mem_of_head? hhead)
      have hmem : .matched matched ∈ nodes := by
        cases node with
        | literal text range => cases hmatched
        | matched other =>
            cases hmatched
            exact hnode
      obtain ⟨token, pattern, hmakes⟩ := horigin matched (.top hmem)
      obtain ⟨hiff, hmade⟩ := hchildren token pattern matched hmakes
      obtain ⟨path, hpath⟩ := Option.isSome_iff_exists.mp (hiff.mp hne)
      obtain ⟨children, htokenize, hshifted⟩ := hmade path hpath
      rw [htext] at htokenize
      rw [hstart] at hshifted
      exact ⟨g, path, rfl, hmoved 9 _ (by decide), nodes, token, pattern, matched, children, hnodes,
        hmakes, hpath, htokenize, hne, hshifted⟩

end Grammar

end Highlight
