import Highlight.Proofs.Scan.Priority
import Mathlib.Data.List.Chain

/-!
The shape of tokenized texts. Nodes have text, literals never meet, and a literal holds nothing but
the contexts of matches and characters where no rule had a hit (`Grammar.tokenize_shaped`). The
rules that count here have steady searches: another one may have a hit that the scan does not see
(`Grammar.not_unclaimed_searchStart`).
-/

namespace Highlight

/-- All that steps leave to literals, between an offset and the first token and between tokens, has
a property. -/
def Step.Leaves (P : Nat → Prop) : Nat → List Step → Prop
  | _, [] => True
  | start, .skip stop :: rest =>
      (∀ offset, start ≤ offset → offset < stop → P offset) ∧ Leaves P stop rest
  | start, .take _ hit :: rest =>
      (∀ offset, start ≤ offset → offset < hit.contextEnd → P offset) ∧ Leaves P hit.stop rest

/-- The contexts of all hits that steps take have a property. -/
def Step.LeavesContexts (P : Nat → Prop) (steps : List Step) : Prop :=
  ∀ take ∈ Step.takes steps, ∀ offset, take.2.start ≤ offset → offset < take.2.contextEnd → P offset

namespace Scan

variable {P : Nat → Prop}

/-- Hits one right behind the other leave their contexts. -/
theorem leaves_of_hits {rules : List Rule} {rule : Rule} {c d : Cursor} {hits : List Hit}
    {rest : List Step} (hpath : Path rules c (hits.map (.take rule)) d)
    (hcontexts : Step.LeavesContexts P (hits.map (.take rule) ++ rest))
    (hrest : Step.Leaves P d.offset rest) :
    Step.Leaves P c.offset (hits.map (.take rule) ++ rest) := by
  induction hits generalizing c with
  | nil =>
      cases hpath
      exact hrest
  | cons hit hits ih =>
      obtain ⟨hcontext, hcontexts⟩ := List.forall_mem_cons.mp hcontexts
      cases hpath with
      | take _ hspans hpath =>
          refine ⟨fun offset hle => hcontext offset (hspans.start ▸ hle), ?_⟩
          rw [← hspans.stop]
          exact ih hpath hcontexts

/-- A scan leaves to literals the contexts of its hits and the characters where the steady rules
have no hit. -/
theorem leaves_of_run {lanes lanes' : List Lane} {c : Cursor} {steps : List Step}
    (hlanes : ∀ lane ∈ lanes, lane.Reliable c) (hrun : run lanes c = .ok (steps, lanes'))
    (hcontexts : Step.LeavesContexts P steps)
    (hskips : ∀ place char next, place.text = c.text → place.next? = some (char, next) →
      (∀ rule ∈ lanes.map (·.rule), Steady rule.find → rule.Misses place) →
        ∀ offset, place.offset ≤ offset → offset < next.offset → P offset) :
    Step.Leaves P c.offset steps := by
  fun_induction run lanes c generalizing steps lanes' with
  | case1 =>
      cases hrun
      trivial
  | case2 => cases hrun
  | case3 lanes c char d hnext next found answer hask ih =>
      obtain ⟨_, _, hok, -, -, hpath⟩ := exists_askAll fun lane h => (hlanes lane h).fits
      cases hask.symm.trans hok
      obtain ⟨hrules, hle, hreliable, -⟩ := askAll_reliable hlanes hask
      have htext : answer.place.text = c.text := Cursor.text_eq_of_le hle
      obtain ⟨⟨rest, lanes''⟩, hrest, heq⟩ := exists_of_bind_eq_ok hrun
      cases heq
      have hleft := ih hreliable hrest
        (fun take hmem => hcontexts take (Step.takes_append _ _ ▸ List.mem_append_right _ hmem))
        (by rwa [hrules, htext])
      exact leaves_of_hits (hpath found answer rfl) hcontexts hleft
  | case4 lanes c char d hnext next hask ih =>
      obtain ⟨hrules, -, hreliable, -⟩ := askAll_reliable hlanes hask
      obtain ⟨⟨rest, lanes''⟩, hrest, heq⟩ := exists_of_bind_eq_ok hrun
      cases heq
      have hle : c ≤ d := Cursor.le_of_next? hnext
      refine ⟨hskips c char d rfl hnext ?_, ih (fun lane h => (hreliable lane h).mono hle) hrest
        hcontexts (by rwa [hrules, Cursor.text_eq_of_le hle])⟩
      rcases askAll_cases hask with ⟨-, -, hnone⟩ | ⟨_, _, _, _, _, -, -, -, -, htaken, -⟩
      · intro rule hmem hsteady
        obtain ⟨lane, hlane, rfl⟩ := List.mem_map.mp hmem
        exact ((hlanes lane hlane).current hsteady).misses (hnone lane hlane)
      · cases htaken

theorem leaves_of_steps {rules : List Rule} {text : List Char} {steps : List Step}
    (hsound : ∀ rule ∈ rules, rule.Sound) (hsteps : Scan.steps rules text = .ok steps)
    (hcontexts : Step.LeavesContexts P steps)
    (hskips : ∀ place char next, place.text = text → place.next? = some (char, next) →
      (∀ rule ∈ rules, Steady rule.find → rule.Misses place) →
        ∀ offset, place.offset ≤ offset → offset < next.offset → P offset) :
    Step.Leaves P 0 steps := by
  obtain ⟨⟨_, lanes⟩, hrun, rfl⟩ := exists_of_map_eq_ok hsteps
  refine leaves_of_run (Lane.reliable_of_mem_ofRule hsound _) hrun hcontexts ?_
  rwa [Lane.map_rule_ofRule, Cursor.start_text]

end Scan

namespace Forest

theorem Run.eq_of_literal_eq_ok {run : Run} {base : Nat} {nodes : List Node}
    (h : run.literal base = .ok nodes) :
    nodes = [] ∨ ∃ text range, nodes = [.literal text range] := by
  unfold literal at h
  split at h
  next =>
    cases h
    exact .inl rfl
  next =>
    obtain ⟨range, -, heq⟩ := exists_of_bind_eq_ok h
    cases heq
    exact .inr ⟨_, range, rfl⟩

/-- The literal of a run holds what the run has taken in. -/
theorem Run.literal_holds {P : Nat → Prop} {run : Run} {base : Nat} {nodes : List Node}
    (hsound : run.Sound) (hlt : base + Text.width run.place.text < UInt32.size)
    (h : run.literal base = .ok nodes)
    (hrun : ∀ offset, run.first.offset ≤ offset → offset < run.place.offset → P offset) :
    ∀ node ∈ nodes, node.isLiteral = true → ∀ offset, node.range.start.toNat ≤ base + offset →
      base + offset < node.range.stop.toNat → P offset := by
  rcases literal_cases hsound hlt with ⟨-, hok⟩ | ⟨range, hrange, hok⟩
  · cases h.symm.trans hok
    exact fun _ hmem => nomatch hmem
  · cases h.symm.trans hok
    intro node hmem _ offset hstart hstop
    obtain rfl := List.mem_singleton.mp hmem
    have hfirst : range.start.toNat = base + run.first.offset := hrange.start
    have hplace : range.stop.toNat = base + run.place.offset := hrange.stop
    have hstart : range.start.toNat ≤ base + offset := hstart
    have hstop : base + offset < range.stop.toNat := hstop
    exact hrun offset (by omega) (by omega)

/-- Literals are not next to each other: each one ends at a token or at the end of the text. -/
theorem isChain_of_build {base : Nat} {run : Run} {steps : List Step} {nodes : List Node}
    (h : build base run steps = .ok nodes) :
    nodes.IsChain fun first second => ¬ (first.isLiteral = true ∧ second.isLiteral = true) := by
  induction steps generalizing run nodes with
  | nil =>
      rcases Run.eq_of_literal_eq_ok h with rfl | ⟨text, range, rfl⟩
      · exact .nil
      · exact .singleton _
  | cons step rest ih =>
      cases step with
      | skip stop =>
          obtain ⟨run', -, hbuild⟩ := exists_of_bind_eq_ok h
          exact ih hbuild
      | take rule hit =>
          obtain ⟨run', before, node, place, after, -, hbefore, htoken, hafter, rfl⟩ :=
            exists_of_build_take h
          obtain ⟨text, matched, rfl, -⟩ := exists_tokenOf_of_token_eq_ok htoken
          have hrest : (Node.matched matched :: after).IsChain fun first second =>
              ¬ (first.isLiteral = true ∧ second.isLiteral = true) :=
            List.isChain_cons.mpr ⟨fun _ _ hboth => (nomatch hboth.1), ih hafter⟩
          rcases Run.eq_of_literal_eq_ok hbefore with rfl | ⟨text, range, rfl⟩
          · exact hrest
          · exact List.isChain_cons_cons.mpr ⟨fun hboth => (nomatch hboth.2), hrest⟩

/-- What is left to literals is what the literals hold. -/
theorem literals_of_build {P : Nat → Prop} {rules : List Rule} {base : Nat} {run : Run}
    {steps : List Step} {c d : Cursor} {nodes : List Node} (hpath : Path rules c steps d)
    (hlt : base + Text.width c.text < UInt32.size) (hsound : run.Sound) (hplace : run.place = c)
    (h : build base run steps = .ok nodes)
    (hrun : ∀ offset, run.first.offset ≤ offset → offset < c.offset → P offset)
    (hsteps : Step.Leaves P c.offset steps) :
    ∀ node ∈ nodes, node.isLiteral = true → ∀ offset, node.range.start.toNat ≤ base + offset →
      base + offset < node.range.stop.toNat → P offset := by
  induction hpath generalizing run nodes with
  | nil c =>
      subst hplace
      exact Run.literal_holds hsound hlt h hrun
  | @skip c d e char steps hnext hrest ih =>
      subst hplace
      obtain ⟨run', hextend, hbuild⟩ := exists_of_bind_eq_ok h
      obtain ⟨hsound', hfirst, -⟩ := hsound.extend hextend
      have htext : d.text = run.place.text := Cursor.text_eq_of_le (Cursor.le_of_next? hnext)
      obtain ⟨hskip, hsteps⟩ := hsteps
      refine ih (htext ▸ hlt) hsound' (hsound.place_of_extend_next hnext hextend) hbuild ?_ hsteps
      intro offset hle hlt
      rcases Nat.lt_or_ge offset run.place.offset with hbefore | hbehind
      · exact hrun offset (hfirst ▸ hle) hbefore
      · exact hskip offset hbehind hlt
  | @take c d e rule hit steps hmem hspans hrest ih =>
      subst hplace
      obtain ⟨run', before, node, place, after, hextend, hbefore, htoken, hafter, rfl⟩ :=
        exists_of_build_take h
      obtain ⟨hsound', hfirst, hle, hoffset⟩ := hsound.extend hextend
      have htext : run'.place.text = run.place.text := Cursor.text_eq_of_le hle
      obtain ⟨text, matched, rfl, hread, -⟩ := exists_tokenOf_of_token_eq_ok htoken
      obtain ⟨text', hread'⟩ := hsound.exists_readTo?_of_extend_spans hspans hextend
      cases hread.symm.trans hread'
      have htext' : d.text = run.place.text := Cursor.text_eq_of_le hspans.le
      obtain ⟨hcontext, hsteps⟩ := hsteps
      have hfront := Run.literal_holds hsound' (htext ▸ hlt) hbefore fun offset hle hlt => by
        rcases Nat.lt_or_ge offset run.place.offset with hbefore | hbehind
        · exact hrun offset (hfirst ▸ hle) hbefore
        · exact hcontext offset hbehind (hoffset ▸ hlt)
      have hback := ih (htext' ▸ hlt) (Run.sound_start d) rfl hafter
        (fun offset hle hlt => absurd hlt (Nat.not_lt.mpr hle)) (hspans.stop ▸ hsteps)
      intro node hnode
      rcases List.mem_append.mp hnode with hnode | hnode
      · exact hfront node hnode
      · rcases List.mem_cons.mp hnode with rfl | hnode
        · exact fun hliteral => (nomatch hliteral)
        · exact hback node hnode

end Forest

namespace Grammar

section Searching

variable [Regex.Searcher]

/-- A byte stands in the context of a match that one of the matched nodes is made of. -/
def InContext (g : Grammar) (text : List Char) (nodes : List Node) (offset : Nat) : Prop :=
  ∃ entry ∈ g.entries, ∃ steps hit matched, Scan.steps g.rules text = .ok steps ∧
    ((entry.2.rule entry.1.name, hit), matched) ∈
      (Step.takes steps).zip (nodes.filterMap Node.matched?) ∧
    hit.start ≤ offset ∧ offset < hit.contextEnd

/-- A byte is part of a character where no pattern with a steady search has a match to emit. -/
def Unclaimed (g : Grammar) (text : List Char) (offset : Nat) : Prop :=
  ∃ (c : Cursor) (char : Char) (d : Cursor), c.text = text ∧ c.next? = some (char, d) ∧
    c.offset ≤ offset ∧ offset < d.offset ∧
    ∀ entry ∈ g.entries, Steady entry.2.hit? → ¬ entry.2.EmitsAt text c.offset

/-- What the nodes that a grammar makes of a text at an offset look like. -/
structure Shapes (g : Grammar) (base : Nat) (text : List Char) (nodes : List Node) : Prop where
  text_ne : ∀ node ∈ nodes, node.text ≠ ""
  apart : nodes.IsChain fun first second => ¬ (first.isLiteral = true ∧ second.isLiteral = true)
  literals : ∀ node ∈ nodes, node.isLiteral = true → ∀ offset,
    node.range.start.toNat ≤ base + offset → base + offset < node.range.stop.toNat →
      g.InContext text nodes offset ∨ g.Unclaimed text offset

variable [Regex.LawfulSearcher]

theorem shapes_of_ofRules {g : Grammar} {base : Nat} {text : List Char} {nodes : List Node}
    (hlt : base + Text.width text < UInt32.size)
    (hnodes : Forest.ofRules g.rules base text = .ok nodes) : g.Shapes base text nodes := by
  obtain ⟨_, hok, hspells⟩ := g.spelling_rules base text hlt
  cases hnodes.symm.trans hok
  obtain ⟨steps, d, hsteps, hpath, -⟩ := Scan.exists_steps (fun _ => sound_of_mem_rules) text
  have hbuild := Forest.build_of_steps hsteps hnodes
  refine ⟨?_, Forest.isChain_of_build hbuild, ?_⟩
  · intro node hmem
    obtain ⟨_, middle, _, -, hcovers, -⟩ := hspells.exists_covers_of_occursIn (.top hmem)
    rw [hcovers.text_eq, Ne, ← String.toList_eq_nil_iff, String.toList_ofList]
    exact hcovers.ne_nil
  refine Forest.literals_of_build hpath (by rwa [Cursor.start_text]) (Forest.Run.sound_start _) rfl
    hbuild (fun offset hle hlt => absurd hlt (Nat.not_lt.mpr hle))
    (Scan.leaves_of_steps (fun _ => sound_of_mem_rules) hsteps ?_ ?_)
  · intro take hmem offset hstart hstop
    obtain ⟨hrules, hall⟩ := standsFor_of_steps hlt hsteps hnodes
    obtain ⟨matched, hzip⟩ := exists_mem_zip_left_of_forall₂ hall hmem
    obtain ⟨token, htoken, pattern, hpattern, hrule⟩ := mem_rules_iff.mp (hrules take hmem)
    exact .inl ⟨(token, pattern), mem_entries_iff.mpr ⟨htoken, hpattern⟩, _, take.2, matched,
      hsteps, by rwa [hrule], hstart, hstop⟩
  · intro place char next htext hnext hmisses offset hstart hstop
    refine .inr ⟨place, char, next, htext, hnext, hstart, hstop, fun entry hentry hsteady => ?_⟩
    obtain ⟨htoken, hpattern⟩ := mem_entries_iff.mp hentry
    have hmem := mem_rules_iff.mpr ⟨entry.1, htoken, entry.2, hpattern, rfl⟩
    rw [← htext]
    exact Pattern.not_emitsAt_of_misses hsteady (hmisses _ hmem (by rwa [Pattern.rule_find]))

/-- On each level of nodes that a grammar makes of a text, all nodes have text, literals never meet,
and they hold nothing but contexts of matches and characters where no pattern of the level with a
steady search has a match to emit. -/
theorem tokenize_shaped (g : Grammar) {text : String}
    (hwidth : Text.width text.toList < UInt32.size) :
    ∃ nodes, g.tokenize text = .ok nodes ∧ g.Shapes 0 text.toList nodes ∧
      ∀ matched : Matched, (Node.matched matched).OccursIn nodes →
        ∃ token pattern, g.Makes text.toList nodes token pattern matched ∧
          (pattern.inside = none → matched.children = []) ∧
          ∀ h, pattern.inside = some h →
            h.Shapes matched.range.start.toNat matched.text.toList matched.children := by
  have hlt : 0 + Text.width text.toList < UInt32.size := by rwa [Nat.zero_add]
  obtain ⟨nodes, hnodes, -⟩ := g.exists_tokenize hwidth
  refine ⟨nodes, hnodes, shapes_of_ofRules hlt hnodes, fun matched hoccurs => ?_⟩
  obtain ⟨token, pattern, hmakes⟩ := exists_makes_of_occursIn hlt hnodes hoccurs
  have hfilled := hmakes.filledBy hlt hnodes
  exact ⟨token, pattern, hmakes, hfilled.childless, fun h hinside =>
    shapes_of_ofRules hfilled.fits (hfilled.children h hinside)⟩

end Searching

/-- The context of the name is part of the literal in front of it. -/
theorem tokenize_shaped_dottedName :
    ∃ g nodes, dottedName = .ok g ∧ g.tokenize "é new a.b ü" = .ok nodes ∧
      nodes.map (·.text) = ["é new ", "a.b", " ü"] ∧ g.Shapes 0 "é new a.b ü".toList nodes := by
  have htexts : (dottedName.toOption.bind fun g =>
      (g.tokenize "é new a.b ü").toOption.map (·.map (·.text))) =
        some ["é new ", "a.b", " ü"] := by decide +kernel
  cases hg : dottedName with
  | error e => simp [hg, Except.toOption] at htexts
  | ok g =>
      obtain ⟨nodes, hnodes, hshapes, -⟩ :=
        g.tokenize_shaped (show Text.width "é new a.b ü".toList < UInt32.size by decide)
      refine ⟨g, nodes, rfl, hnodes, ?_, hshapes⟩
      simpa [hg, hnodes, Except.toOption] using htexts

/-- A pattern that asks where its search started may have a match at a character of a literal: the
search from the start of the text has come to nothing. -/
theorem not_unclaimed_searchStart :
    ∃ g nodes, Grammar.compile "g" [("t", [.plain "\\Gx"])] = .ok g ∧
      g.tokenize "ax" = .ok nodes ∧
      (∃ node ∈ nodes, node.isLiteral = true ∧ node.range.start.toNat ≤ 1 ∧
        1 < node.range.stop.toNat) ∧
      ¬ g.InContext "ax".toList nodes 1 ∧
      ∀ (c : Cursor) (char : Char) (d : Cursor), c.text = "ax".toList →
        c.next? = some (char, d) → c.offset ≤ 1 → 1 < d.offset →
          ∃ entry ∈ g.entries, entry.2.EmitsAt "ax".toList c.offset := by
  let place : Cursor := ⟨['a'], ['x'], 1, 1, rfl, rfl⟩
  have hcheck : ((Grammar.compile "g" [("t", [.plain "\\Gx"])]).toOption.bind fun g =>
      g.entries.head?.bind fun entry => (entry.2.hit? place).bind fun found =>
        (g.tokenize "ax").toOption.map fun nodes =>
          ((found.start, found.emits), nodes.map fun node =>
            (node.isLiteral, node.range.start.toNat, node.range.stop.toNat))) =
      some ((1, true), [(true, 0, 2)]) := by decide +kernel
  obtain ⟨g, hg, hcheck⟩ := Option.bind_eq_some_iff.mp hcheck
  obtain ⟨entry, hentry, hcheck⟩ := Option.bind_eq_some_iff.mp hcheck
  obtain ⟨found, hfound, hcheck⟩ := Option.bind_eq_some_iff.mp hcheck
  obtain ⟨nodes, hnodes, hcheck⟩ := Option.map_eq_some_iff.mp hcheck
  obtain ⟨hplace, hshape⟩ := Prod.mk.inj hcheck
  obtain ⟨hstart, hemits⟩ := Prod.mk.inj hplace
  obtain ⟨node, rfl, hnode⟩ := List.map_eq_singleton_iff.mp hshape
  obtain ⟨hliteral, hends⟩ := Prod.mk.inj hnode
  obtain ⟨hfirst, hlast⟩ := Prod.mk.inj hends
  refine ⟨g, [node], eq_ok_of_toOption_eq_some hg, eq_ok_of_toOption_eq_some hnodes,
    ⟨node, List.mem_singleton_self _, hliteral, by omega, by omega⟩, ?_, ?_⟩
  · rintro ⟨_, -, steps, hit, matched, -, hzip, -⟩
    cases node with
    | literal text range => exact nomatch (List.of_mem_zip hzip).2
    | matched token => cases hliteral
  · intro c char d htext hnext hle hlt
    refine ⟨entry, List.mem_of_mem_head? hentry, place, found, rfl, hfound, ?_, hemits⟩
    -- The character that holds the second byte starts there.
    rcases Nat.lt_or_ge c.offset 1 with hzero | hone
    · have hc : c = Cursor.start "ax".toList :=
        Cursor.eq_of_text_eq (htext.trans (Cursor.start_text _).symm) (Nat.lt_one_iff.mp hzero)
      subst hc
      cases hnext
      exact absurd hlt (by decide)
    · exact hstart.trans (Nat.le_antisymm hone hle)

end Grammar

end Highlight
