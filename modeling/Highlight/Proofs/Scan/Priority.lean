import Highlight.Proofs.Compose.Splice
import Highlight.Proofs.Scan.Asking
import Highlight.Proofs.Scan.Cache
import Highlight.Proofs.Scan.Emission

/-!
Precedence. A pattern that takes a hit, unless it is global and repeats itself, takes it at a place
where the steady patterns before it have no hit (`Grammar.not_emitsAt_of_emits`). So the place where
tokens are inserted settles which of them and their anchor comes first
(`Grammar.precedence_of_insert`). A search that looks at the place where it starts is not steady,
and escapes this (`Grammar.no_precedence_of_searchStart`).
-/

namespace Highlight

/-- A search from a place finds no hit right there that leaves text for a token. -/
def Rule.Misses (c : Cursor) (rule : Rule) : Prop :=
  ∀ hit, rule.find c = some hit → hit.start = c.offset → hit.emits = false

namespace Lane

/-- A lane in good order at a place: with a steady search its memory is right, and with any
search it fits the text. -/
structure Reliable (c : Cursor) (lane : Lane) : Prop where
  fits : lane.Fits c.text
  current : Steady lane.rule.find → lane.Current c

variable {lane : Lane} {c d : Cursor}

theorem reliable_ofRule {rule : Rule} (h : rule.Sound) (c : Cursor) :
    (ofRule rule).Reliable c :=
  ⟨fits_ofRule h c.text, fun hsteady => current_ofRule hsteady c⟩

theorem reliable_of_mem_ofRule {rules : List Rule} (h : ∀ rule ∈ rules, rule.Sound) (c : Cursor) :
    ∀ lane ∈ rules.map ofRule, lane.Reliable c := by
  intro lane hmem
  obtain ⟨rule, hrule, rfl⟩ := List.mem_map.mp hmem
  exact reliable_ofRule (h rule hrule) c

theorem Reliable.mono (h : lane.Reliable c) (hle : c ≤ d) : lane.Reliable d :=
  ⟨Cursor.text_eq_of_le hle ▸ h.fits, fun hsteady => (h.current hsteady).mono hle⟩

theorem Reliable.refresh (h : lane.Reliable c) : (lane.refresh c).Reliable c := by
  refine ⟨h.fits.refresh, ?_⟩
  rw [rule_refresh]
  exact fun hsteady => (h.current hsteady).refresh

theorem Reliable.ask (h : lane.Reliable c) {answer : Answer} (hask : lane.ask c = .ok answer) :
    c ≤ answer.place ∧ answer.lane.rule = lane.rule ∧ answer.lane.Reliable answer.place := by
  -- A lane that fits the text goes forward, whether its search is steady or not.
  obtain ⟨answer', hask', hrule, hfits, hpath⟩ := exists_ask h.fits
  rw [hask] at hask'
  cases hask'
  refine ⟨hpath.le, hrule, Cursor.text_eq_of_le hpath.le ▸ hfits, ?_⟩
  rw [hrule]
  exact fun hsteady => (hits_of_ask (h.current hsteady) hask).2.2.2

theorem Current.misses (h : lane.Current c) (hnone : (lane.refresh c).hitAt? c = none) :
    lane.rule.Misses c := by
  intro hit hfind hstart
  have hslot := slot_refresh h.agrees
  rw [hfind] at hslot
  simpa [hitAt?, hslot, hstart] using hnone

end Lane

/-- A hit that a rule of a list takes at a place, where the steady rules before it have none. -/
def Rule.Precedes (rules : List Rule) (text : List Char) (rule : Rule) (hit : Hit) : Prop :=
  ∃ before after c, rules = before ++ rule :: after ∧ c.text = text ∧ c.offset = hit.start ∧
    ∀ other ∈ before, Steady other.find → other.Misses c

namespace Scan

variable {lanes lanes' : List Lane} {c : Cursor}

/-- Asking leaves the lanes reliable for the place behind the hits, and a rule that is not global
takes a single hit, which no steady rule before it has. -/
theorem askAll_reliable {taken : Option (Rule × Lane.Answer)}
    (h : ∀ lane ∈ lanes, lane.Reliable c) (hask : askAll c lanes = .ok (lanes', taken)) :
    lanes'.map (·.rule) = lanes.map (·.rule) ∧ c ≤ taken.elim c (·.2.place) ∧
      (∀ lane ∈ lanes', lane.Reliable (taken.elim c (·.2.place))) ∧
      ∀ rule answer, taken = some (rule, answer) → rule.global = false →
        ∀ hit ∈ answer.hits, rule.Precedes (lanes.map (·.rule)) c.text hit := by
  rcases askAll_cases hask with ⟨rfl, rfl, -⟩ |
    ⟨before, lane, after, hit, answer, rfl, hnone, hhit, hone, rfl, rfl⟩
  · refine ⟨by simp [Function.comp_def], Cursor.le_refl c, ?_, fun _ _ hsome => nomatch hsome⟩
    intro lane' hmem
    obtain ⟨lane, hlane, rfl⟩ := List.mem_map.mp hmem
    exact (h lane hlane).refresh
  · have hlane := h lane (by simp)
    obtain ⟨hle, hrule, hanswer⟩ := hlane.ask hone
    refine ⟨by simp [Function.comp_def, hrule], hle, ?_, ?_⟩
    · intro other hmem
      simp only [List.mem_append, List.mem_map, List.mem_cons] at hmem
      rcases hmem with ⟨first, hfirst, rfl⟩ | rfl | hafter
      · exact (h first (by simp [hfirst])).refresh.mono hle
      · exact hanswer
      · exact (h other (by simp [hafter])).mono hle
    · rintro _ _ ⟨⟩ hglobal taken hmem
      obtain ⟨_, _, -, ⟨hrepeats, -⟩ | ⟨-, rfl⟩⟩ := Lane.ask_cases hhit hone
      · simp [hglobal] at hrepeats
      · obtain rfl := List.mem_singleton.mp hmem
        refine ⟨before.map (·.rule), after.map (·.rule), c, by simp, rfl,
          (Lane.hitAt?_start hhit).1.symm, ?_⟩
        intro rule hrule hsteady
        obtain ⟨other, hother, rfl⟩ := List.mem_map.mp hrule
        exact ((h other (by simp [hother])).current hsteady).misses (hnone other hother)

/-- All hits that a scan takes by rules that are not global go to the first steady rule with one,
or to one before it. -/
theorem run_precedes {steps : List Step} (h : ∀ lane ∈ lanes, lane.Reliable c)
    (hrun : run lanes c = .ok (steps, lanes')) {rule : Rule} {hit : Hit}
    (hmem : .take rule hit ∈ steps) (hglobal : rule.global = false) :
    rule.Precedes (lanes.map (·.rule)) c.text hit := by
  fun_induction run lanes c generalizing steps lanes' with
  | case1 =>
      cases hrun
      cases hmem
  | case2 => cases hrun
  | case3 lanes c char d hnext next found answer hask ih =>
      obtain ⟨hrules, hle, hreliable, hprecedes⟩ := askAll_reliable h hask
      obtain ⟨⟨rest, lanes''⟩, hrest, heq⟩ := exists_of_bind_eq_ok hrun
      cases heq
      rcases List.mem_append.mp hmem with hfirst | hrestmem
      · obtain ⟨taken, htaken, heq⟩ := List.mem_map.mp hfirst
        cases heq
        exact hprecedes rule answer rfl hglobal hit htaken
      · rw [← hrules, ← Cursor.text_eq_of_le hle]
        exact ih hreliable hrest hrestmem
  | case4 lanes c char d hnext next hask ih =>
      obtain ⟨hrules, -, hreliable, -⟩ := askAll_reliable h hask
      obtain ⟨⟨rest, lanes''⟩, hrest, heq⟩ := exists_of_bind_eq_ok hrun
      cases heq
      obtain ⟨⟩ | ⟨-, hrestmem⟩ := hmem
      have hle : c ≤ d := Cursor.le_of_next? hnext
      rw [← hrules, ← Cursor.text_eq_of_le hle]
      exact ih (fun lane hlane => (hreliable lane hlane).mono hle) hrest hrestmem

theorem steps_precedes {rules : List Rule} {text : List Char} {steps : List Step}
    (hsound : ∀ rule ∈ rules, rule.Sound) (hsteps : Scan.steps rules text = .ok steps)
    {rule : Rule} {hit : Hit} (hmem : .take rule hit ∈ steps) (hglobal : rule.global = false) :
    rule.Precedes rules text hit := by
  obtain ⟨⟨_, lanes'⟩, hrun, rfl⟩ := exists_of_map_eq_ok hsteps
  have hprecedes := run_precedes (Lane.reliable_of_mem_ofRule hsound _) hrun hmem hglobal
  rwa [Cursor.start_text, Lane.map_rule_ofRule] at hprecedes

end Scan

/-- With a steady search, a hit at a place is found by the search from that place. -/
theorem Pattern.not_emitsAt_of_misses [Regex.Searcher] [Regex.LawfulSearcher] {p : Pattern}
    {name : String} {c : Cursor} (hsteady : Steady p.hit?) (h : (p.rule name).Misses c) :
    ¬ p.EmitsAt c.text c.offset := by
  rintro ⟨d, hit, htext, hhit, hstart, hemits⟩
  have hle : d ≤ c := by
    apply Cursor.le_of_text_eq htext
    rw [← hstart]
    exact (fits_of_hit? hhit).1
  have hfind : (p.rule name).find c = some hit := by
    rw [rule_find]
    exact hsteady.eq_some_of_le hle hhit (Nat.le_of_eq hstart.symm)
  have hnone := h hit hfind hstart
  rw [hemits] at hnone
  cases hnone

namespace Grammar

theorem mem_steps_of_emits [Regex.Searcher] {g : Grammar} {text : String}
    {entry : Token × Pattern} {hit : Hit} {matched : Matched} (h : g.Emits text entry hit matched) :
    ∃ steps, Scan.steps g.rules text.toList = .ok steps ∧
      .take (entry.2.rule entry.1.name) hit ∈ steps := by
  obtain ⟨-, steps, nodes, hsteps, -, hzip⟩ := h
  obtain ⟨step, hstep, htake⟩ := List.mem_filterMap.mp (List.of_mem_zip hzip).1
  cases step with
  | skip => cases htake
  | take rule found =>
      cases htake
      exact ⟨steps, hsteps, hstep⟩

section Searching

variable [Regex.Searcher] [Regex.LawfulSearcher]

/-- Where a pattern that is not global emits a token, no steady pattern of a token of another name
before it has a match to emit. -/
theorem not_emitsAt_of_emits {g : Grammar} {text : String} {entry : Token × Pattern} {hit : Hit}
    {matched : Matched} {before rest : List Token} (h : g.Emits text entry hit matched)
    (hglobal : entry.2.global = false) (htokens : g.tokens = before ++ rest)
    (hnames : ∀ token ∈ before, token.name ≠ entry.1.name) {token : Token} {p : Pattern}
    (htoken : token ∈ before) (hp : p ∈ token.patterns) (hsteady : Steady p.hit?) :
    ¬ p.EmitsAt text.toList hit.start := by
  obtain ⟨steps, hsteps, hmem⟩ := mem_steps_of_emits h
  obtain ⟨ahead, after, c, hrules, htext, hoffset, hmisses⟩ :=
    Scan.steps_precedes (fun _ => sound_of_mem_rules) hsteps hmem (by rwa [Pattern.rule_global])
  -- The rules of the tokens before come ahead of the rule that takes the hit.
  have hahead : p.rule token.name ∈ ahead := by
    rw [rules_eq_flatMap, htokens, List.flatMap_append] at hrules
    have hfirst : p.rule token.name ∈
        before.flatMap fun token => token.patterns.map (·.rule token.name) :=
      List.mem_flatMap.mpr ⟨token, htoken, List.mem_map.mpr ⟨p, hp, rfl⟩⟩
    rcases List.append_eq_append_iff.mp hrules with ⟨middle, rfl, -⟩ | ⟨middle, hfront, hback⟩
    · exact List.mem_append_left _ hfirst
    · cases middle with
      | nil => simpa [hfront] using hfirst
      | cons rule middle =>
          obtain ⟨rfl, -⟩ := List.cons.inj hback
          obtain ⟨other, hother, hrule⟩ := List.mem_flatMap.mp
            (hfront ▸ List.mem_append_right ahead List.mem_cons_self)
          obtain ⟨q, -, heq⟩ := List.mem_map.mp hrule
          have hname : other.name = entry.1.name := by
            simpa using congrArg Rule.token heq
          exact absurd hname (hnames other hother)
  have hmiss := hmisses _ hahead (by rwa [Pattern.rule_find])
  rw [← htext, ← hoffset]
  exact Pattern.not_emitsAt_of_misses hsteady hmiss

/-- Inserted tokens take precedence over their anchor or yield to it, as they stand before or after
it. Each matched node is emitted for a match, and where no global pattern emits it, nothing steady
that takes precedence has a match. -/
theorem precedence_of_insert (g : Grammar) {anchor : String} (htop : '/' ∉ anchor.toList)
    (tokens : List Token) {text : String} (hwidth : Text.width text.toList < UInt32.size) :
    (∀ other, g.insert .before anchor tokens = .ok other →
        ∀ entry hit matched, other.Emits text entry hit matched → entry.1.name = anchor →
          entry.2.global = false → ∀ token ∈ tokens, ∀ p ∈ token.patterns, Steady p.hit? →
            ¬ p.EmitsAt text.toList hit.start) ∧
      (∀ other, g.insert .after anchor tokens = .ok other →
        ∀ entry hit matched, other.Emits text entry hit matched → entry.1 ∈ tokens →
          entry.2.global = false → ∀ token, g.find? anchor = some token →
            ∀ p ∈ token.patterns, Steady p.hit? → ¬ p.EmitsAt text.toList hit.start) ∧
      ∀ other : Grammar, ∃ nodes, other.tokenize text = .ok nodes ∧
        ∀ matched, .matched matched ∈ nodes →
          ∃ entry hit, other.Emits text entry hit matched ∧ entry.1.name = matched.name := by
  refine ⟨?_, ?_, ?_⟩
  · intro other hinsert entry hit matched hemits hname hglobal token htoken p hp hsteady
    obtain ⟨before, anchored, after, hsplits⟩ := splits_of_insert htop hinsert
    refine not_emitsAt_of_emits hemits hglobal hsplits.spliced ?_
      (List.mem_append_right before htoken) hp hsteady
    intro t ht
    rw [hname]
    rcases List.mem_append.mp ht with ht | ht
    · exact hsplits.first t ht
    · rintro rfl
      exact hsplits.fresh t ht hsplits.anchor_mem
  · intro other hinsert entry hit matched hemits hmem hglobal token hfind p hp hsteady
    obtain ⟨before, anchored, after, hsplits⟩ := splits_of_insert htop hinsert
    cases hsplits.find?_eq.symm.trans hfind
    have htokens : other.tokens = (before ++ [token]) ++ (tokens ++ after) := by
      simpa using hsplits.spliced
    refine not_emitsAt_of_emits hemits hglobal htokens ?_ (by simp) hp hsteady
    intro t ht heq
    refine hsplits.fresh entry.1 hmem ?_
    rw [← heq]
    refine List.mem_map_of_mem ?_
    rw [hsplits.tokens_eq]
    simp only [List.mem_append, List.mem_singleton] at ht
    simp only [List.mem_append, List.mem_cons]
    exact ht.imp_right .inl
  · intro other
    obtain ⟨nodes, hnodes, -⟩ := other.exists_tokenize hwidth
    refine ⟨nodes, hnodes, fun matched hmem => ?_⟩
    obtain ⟨entry, hit, hemits⟩ := exists_emits hwidth hnodes hmem
    obtain ⟨_, -, -, -, htoken⟩ := hemits.standsFor hwidth
    exact ⟨entry, hit, hemits, by simpa using htoken.name_eq.symm⟩

end Searching

/-- A token for dots that is put before the names has no dot where a name starts. -/
theorem precedence_of_insert_dottedName :
    ∃ g dot other entry hit matched p, dottedName = .ok g ∧
      Token.compile "dot" [.plain "\\."] = .ok dot ∧ g.insert .before "name" [dot] = .ok other ∧
      other.Emits "é new a.b ü" entry hit matched ∧ entry.1.name = "name" ∧ p ∈ dot.patterns ∧
      ¬ p.EmitsAt "é new a.b ü".toList hit.start := by
  have hcheck : (dottedName.toOption.bind fun g =>
      (Token.compile "dot" [.plain "\\."]).toOption.bind fun dot =>
        (g.insert .before "name" [dot]).toOption.bind fun other =>
          dot.patterns.head?.bind fun p =>
            (Scan.steps other.rules "é new a.b ü".toList).toOption.map fun steps =>
              (p.regex.isSteady, (Step.takes steps).map fun take =>
                (take.1.token, take.1.global))) =
      some (true, [("name", false)]) := by decide +kernel
  obtain ⟨g, hg, hcheck⟩ := Option.bind_eq_some_iff.mp hcheck
  obtain ⟨dot, hdot, hcheck⟩ := Option.bind_eq_some_iff.mp hcheck
  obtain ⟨other, hother, hcheck⟩ := Option.bind_eq_some_iff.mp hcheck
  obtain ⟨p, hp, hcheck⟩ := Option.bind_eq_some_iff.mp hcheck
  obtain ⟨steps, hsteps, hcheck⟩ := Option.map_eq_some_iff.mp hcheck
  obtain ⟨hsteady, htakes⟩ := Prod.mk.inj hcheck
  have hinsert := eq_ok_of_toOption_eq_some hother
  have hp : p ∈ dot.patterns := List.mem_of_mem_head? hp
  obtain ⟨⟨rule, hit⟩, htake, hrule⟩ := List.exists_of_mem_map
    (htakes ▸ List.mem_singleton_self ("name", false))
  obtain ⟨entry, matched, hemits, rfl⟩ := exists_emits_of_takes (by decide)
    (eq_ok_of_toOption_eq_some hsteps) htake
  obtain ⟨hname, hglobal⟩ : entry.1.name = "name" ∧ entry.2.global = false := by simpa using hrule
  refine ⟨g, dot, other, entry, hit, matched, p, eq_ok_of_toOption_eq_some hg,
    eq_ok_of_toOption_eq_some hdot, hinsert, hemits, hname, hp, ?_⟩
  exact (g.precedence_of_insert (by decide : '/' ∉ "name".toList) [dot] (by decide)).1 other hinsert
    entry hit matched hemits hname hglobal dot (by simp) p hp (Pattern.steady_of_isSteady hsteady)

/-- A pattern that asks where its search started may have a match at a place and yet not be heard
there: no search of the scan starts at that place, as an earlier one has come to nothing. -/
theorem no_precedence_of_searchStart :
    ∃ g mark other entry hit matched, Grammar.compile "g" [("a", [.plain "x"])] = .ok g ∧
      Token.compile "t" [.plain "\\Gx"] = .ok mark ∧ g.insert .before "a" [mark] = .ok other ∧
      other.Emits "ax" entry hit matched ∧ entry.1.name = "a" ∧ entry.2.global = false ∧
      ∃ p ∈ mark.patterns, p.EmitsAt "ax".toList hit.start ∧
        ∃ c, c.text = "ax".toList ∧ c.offset = hit.start ∧ ¬ (p.rule "t").Misses c := by
  let place : Cursor := ⟨['a'], ['x'], 1, 1, rfl, rfl⟩
  have hcheck : ((Grammar.compile "g" [("a", [.plain "x"])]).toOption.bind fun g =>
      (Token.compile "t" [.plain "\\Gx"]).toOption.bind fun mark =>
        (g.insert .before "a" [mark]).toOption.bind fun other =>
          mark.patterns.head?.bind fun p => (p.hit? place).bind fun found =>
            (Scan.steps other.rules "ax".toList).toOption.map fun steps =>
              ((found.start, found.emits), (Step.takes steps).map fun take =>
                (take.1.token, take.1.global, take.2.start))) =
      some ((1, true), [("a", false, 1)]) := by decide +kernel
  obtain ⟨g, hg, hcheck⟩ := Option.bind_eq_some_iff.mp hcheck
  obtain ⟨mark, hmark, hcheck⟩ := Option.bind_eq_some_iff.mp hcheck
  obtain ⟨other, hother, hcheck⟩ := Option.bind_eq_some_iff.mp hcheck
  obtain ⟨p, hp, hcheck⟩ := Option.bind_eq_some_iff.mp hcheck
  obtain ⟨found, hfound, hcheck⟩ := Option.bind_eq_some_iff.mp hcheck
  obtain ⟨steps, hsteps, hcheck⟩ := Option.map_eq_some_iff.mp hcheck
  obtain ⟨hplace, htakes⟩ := Prod.mk.inj hcheck
  obtain ⟨hstart, hemitted⟩ := Prod.mk.inj hplace
  obtain ⟨⟨rule, hit⟩, htake, hrule⟩ := List.exists_of_mem_map
    (htakes ▸ List.mem_singleton_self ("a", false, 1))
  obtain ⟨entry, matched, hemits, rfl⟩ := exists_emits_of_takes (by decide)
    (eq_ok_of_toOption_eq_some hsteps) htake
  obtain ⟨hname, hglobal, hone⟩ :
      entry.1.name = "a" ∧ entry.2.global = false ∧ hit.start = 1 := by simpa using hrule
  refine ⟨g, mark, other, entry, hit, matched, eq_ok_of_toOption_eq_some hg,
    eq_ok_of_toOption_eq_some hmark, eq_ok_of_toOption_eq_some hother, hemits, hname, hglobal, p,
    List.mem_of_mem_head? hp, ⟨place, found, rfl, hfound, hstart.trans hone.symm, hemitted⟩, place,
    rfl, hone.symm, ?_⟩
  intro hmisses
  have hsilent := hmisses found (by rwa [Pattern.rule_find]) hstart
  rw [hemitted] at hsilent
  cases hsilent

end Grammar

end Highlight
