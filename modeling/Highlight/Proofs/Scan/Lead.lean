import Highlight.Proofs.Scan.Silence

/-!
The first pattern of a grammar. No other one is asked before it, so that it takes the same hits
whether it is repeated right behind its own match or asked again in the next round of the scan
(`Scan.steps_lead`). Hence its flag makes no difference to the nodes of a text, at any depth
(`Grammar.tokenize_of_sameButLeads`).
-/

namespace Highlight

/-- Rules whose hits become the same tokens. -/
structure Rule.MakesAs (rule other : Rule) : Prop where
  token : rule.token = other.token
  label : rule.label = other.label
  inside : rule.inside = other.inside

namespace Lane

variable {lane other : Lane} {c : Cursor}

theorem refresh_refresh (h : lane.rule.Sound) : (lane.refresh c).refresh c = lane.refresh c := by
  have hsearch : (lane.search c).refresh c = lane.search c := by
    unfold search
    cases hfind : lane.rule.find c with
    | none => rfl
    | some hit =>
        have hstart : c.offset ≤ hit.start := (h c hit hfind).1
        simp only [refresh, if_pos hstart]
  cases hslot : lane.slot with
  | unknown => simpa only [refresh, hslot] using hsearch
  | exhausted => simp only [refresh, hslot]
  | next hit =>
      by_cases hstart : c.offset ≤ hit.start
      · simp only [refresh, hslot, if_pos hstart]
      · have hrefresh : lane.refresh c = lane.search c := by
          simp only [refresh, hslot, if_neg hstart]
        rw [hrefresh, hsearch]

/-- A lane that repeats itself and one that does not, which know the same as soon as they are asked
at a place. -/
structure Leads (c : Cursor) (lane other : Lane) : Prop where
  sound : lane.rule.Sound
  global : lane.rule.global = true
  rule_eq : other.rule = { lane.rule with global := false }
  slot_eq : (lane.refresh c).slot = (other.refresh c).slot

theorem leads_of_slot_eq (hsound : lane.rule.Sound) (hglobal : lane.rule.global = true)
    (hrule : other.rule = { lane.rule with global := false }) (hslot : lane.slot = other.slot)
    (c : Cursor) : Leads c lane other := by
  have hfind : lane.rule.find = other.rule.find := by rw [hrule]
  exact ⟨hsound, hglobal, hrule, slot_refresh_congr hfind hslot c⟩

namespace Leads

theorem refresh (h : Leads c lane other) (d : Cursor) :
    Leads d (lane.refresh c) (other.refresh c) := by
  refine leads_of_slot_eq ?_ ?_ ?_ h.slot_eq d
  · rw [rule_refresh]
    exact h.sound
  · rw [rule_refresh]
    exact h.global
  · rw [rule_refresh, rule_refresh]
    exact h.rule_eq

/-- The hits that a lane takes by repeating itself are taken in as many rounds by a lane that does
not, as long as no other lane comes before it. -/
theorem exists_run_eq (h : Leads c lane other) (lanes : List Lane) {answer : Answer}
    (hask : lane.ask c = .ok answer) :
    ∃ next, Leads answer.place answer.lane next ∧
      Scan.run (other :: lanes) c = do
        let (steps, lanes) ← Scan.run (next :: lanes) answer.place
        return (answer.hits.map (.take other.rule) ++ steps, lanes) := by
  -- Each hit is a round of its own: the lane in front is asked first in each of them.
  fun_induction ask lane c generalizing other answer with
  | case1 lane c lane' =>
      cases hask
      refine ⟨other, ⟨?_, ?_, ?_, ?_⟩, ?_⟩
      · exact (h.refresh c).sound
      · exact (h.refresh c).global
      · rw [rule_refresh]
        exact h.rule_eq
      · rw [refresh_refresh h.sound]
        exact h.slot_eq
      · cases Scan.run (other :: lanes) c with
        | error fault => rfl
        | ok found => rfl
  | case2 => cases hask
  | case3 lane c lane' hit hhit front d hread hglobal =>
      rename_i ih
      obtain ⟨inner, hinner, heq⟩ := exists_of_bind_eq_ok hask
      cases heq
      obtain ⟨next, hnext, hrun⟩ := ih (h.refresh d) hinner
      rw [rule_refresh] at hrun
      refine ⟨next, hnext, ?_⟩
      have hhit' : (other.refresh c).hitAt? c = some hit := by
        rw [← hhit, hitAt?, hitAt?, h.slot_eq]
      have hother : other.rule.global = false := by rw [h.rule_eq]
      have hone : other.ask c = .ok ⟨other.refresh c, [hit], d⟩ := by
        rw [ask_of_hitAt?_eq_some hhit' hread, if_neg (by simp [hother])]
      have haskAll : Scan.askAll c (other :: lanes) =
          .ok (other.refresh c :: lanes, some (other.rule, ⟨other.refresh c, [hit], d⟩)) := by
        simp only [Scan.askAll, hone, bind, Except.bind]
        rfl
      obtain ⟨char, e, hchar⟩ : ∃ char e, c.next? = some (char, e) := by
        cases hend : c.next? with
        | some found => exact ⟨found.1, found.2, rfl⟩
        | none =>
            obtain ⟨hstart, hemits⟩ := hitAt?_start hhit
            have hcontext := hit.start_le_contextEnd
            have hshorter := Cursor.length_after_readTo? hread (by omega)
            rw [Cursor.next?_eq_none_iff.mp hend] at hshorter
            cases hshorter
      rw [Scan.run_of_askAll_eq_some hchar haskAll, hrun]
      cases Scan.run (next :: lanes) inner.place with
      | error fault => rfl
      | ok found => rfl
  | case4 lane c lane' hit hhit front d hread =>
      rename_i hglobal
      rw [rule_refresh] at hglobal
      exact absurd h.global hglobal

end Leads

end Lane

namespace Scan

variable {lane other : Lane} {lanes lanes' : List Lane} {c : Cursor}

theorem askAll_cons_of_hitAt?_eq_none (h : (lane.refresh c).hitAt? c = none) :
    askAll c (lane :: lanes) = do
      let (lanes, taken) ← askAll c lanes
      return (lane.refresh c :: lanes, taken) := by
  rw [askAll, Lane.ask_of_hitAt?_eq_none h]
  rfl

/-- If the first lane takes no hit, neither way of asking it makes a difference to the others. -/
theorem exists_askAll_of_leads (h : Lane.Leads c lane other)
    (hhit : (lane.refresh c).hitAt? c = none) {next : List Lane}
    {taken : Option (Rule × Lane.Answer)} (hask : askAll c (lane :: lanes) = .ok (next, taken)) :
    ∃ others, next = lane.refresh c :: others ∧
      askAll c (other :: lanes) = .ok (other.refresh c :: others, taken) := by
  rw [askAll_cons_of_hitAt?_eq_none hhit] at hask
  obtain ⟨⟨others, taken'⟩, hothers, heq⟩ := exists_of_bind_eq_ok hask
  cases heq
  have hhit' : (other.refresh c).hitAt? c = none := by
    rw [← hhit, Lane.hitAt?, Lane.hitAt?, h.slot_eq]
  refine ⟨others, rfl, ?_⟩
  rw [askAll_cons_of_hitAt?_eq_none hhit', hothers]
  rfl

theorem exists_ask_of_askAll {hit : Hit} (hhit : (lane.refresh c).hitAt? c = some hit)
    {next : List Lane} {taken : Option (Rule × Lane.Answer)}
    (hask : askAll c (lane :: lanes) = .ok (next, taken)) :
    ∃ answer, lane.ask c = .ok answer ∧ next = answer.lane :: lanes ∧
      taken = some (lane.rule, answer) := by
  rw [askAll] at hask
  obtain ⟨answer, hanswer, hask⟩ := exists_of_bind_eq_ok hask
  split at hask
  next hnil => exact absurd hnil (Lane.hits_ne_nil_of_ask hhit hanswer)
  next =>
    cases hask
    exact ⟨answer, hanswer, rfl, rfl⟩

theorem twins_takes {rule other : Rule} (h : rule.MakesAs other) (hits : List Hit) :
    List.Forall₂ (Step.Twins Rule.MakesAs) (hits.map (.take rule)) (hits.map (.take other)) := by
  simp only [List.forall₂_map_left_iff, List.forall₂_map_right_iff]
  exact List.forall₂_same.mpr fun hit _ => .take hit h

/-- Whether the first lane repeats itself or not, the scan takes the same steps. -/
theorem run_lead (h : Lane.Leads c lane other) {steps : List Step}
    (hrun : run (lane :: lanes) c = .ok (steps, lanes')) :
    ∃ steps' others', run (other :: lanes) c = .ok (steps', others') ∧
      List.Forall₂ (Step.Twins Rule.MakesAs) steps steps' := by
  generalize hall : lane :: lanes = all at hrun
  fun_induction run all c generalizing lane other lanes steps lanes' with
  | case1 all c hnext =>
      cases hrun
      exact ⟨[], other :: lanes, run_of_next?_eq_none hnext, .nil⟩
  | case2 => cases hrun
  | case3 all c char d hnext next rule answer hask ih =>
      subst hall
      obtain ⟨⟨rest, lanes''⟩, hrest, heq⟩ := exists_of_bind_eq_ok hrun
      cases heq
      cases hhit : (lane.refresh c).hitAt? c with
      | none =>
          obtain ⟨others, rfl, hask'⟩ := exists_askAll_of_leads h hhit hask
          obtain ⟨rest', others', hrun', hsteps⟩ := ih (h.refresh answer.place) rfl hrest
          refine ⟨answer.hits.map (.take rule) ++ rest', others', ?_,
            List.rel_append (twins_takes ⟨rfl, rfl, rfl⟩ answer.hits) hsteps⟩
          rw [run_of_askAll_eq_some hnext hask', hrun']
          rfl
      | some hit =>
          obtain ⟨answer', hone, rfl, heq⟩ := exists_ask_of_askAll hhit hask
          cases heq
          obtain ⟨next, hleads, hequal⟩ := h.exists_run_eq lanes hone
          obtain ⟨rest', others', hrun', hsteps⟩ := ih hleads rfl hrest
          have hmakes : lane.rule.MakesAs other.rule := by
            rw [h.rule_eq]
            exact ⟨rfl, rfl, rfl⟩
          refine ⟨answer.hits.map (.take other.rule) ++ rest', others', ?_,
            List.rel_append (twins_takes hmakes answer.hits) hsteps⟩
          rw [hequal, hrun']
          rfl
  | case4 all c char d hnext next hask ih =>
      subst hall
      obtain ⟨⟨rest, lanes''⟩, hrest, heq⟩ := exists_of_bind_eq_ok hrun
      cases heq
      cases hhit : (lane.refresh c).hitAt? c with
      | none =>
          obtain ⟨others, rfl, hask'⟩ := exists_askAll_of_leads h hhit hask
          obtain ⟨rest', others', hrun', hsteps⟩ := ih (h.refresh d) rfl hrest
          refine ⟨.skip d.offset :: rest', others', ?_, .cons (.skip d.offset) hsteps⟩
          rw [run_of_askAll_eq_none hnext hask', hrun']
          rfl
      | some hit =>
          obtain ⟨_, -, -, heq⟩ := exists_ask_of_askAll hhit hask
          cases heq

theorem steps_lead (rule : Rule) {rules : List Rule} (hglobal : rule.global = true)
    (hsound : ∀ other ∈ rule :: rules, other.Sound) (text : List Char) :
    ∃ steps steps', Scan.steps (rule :: rules) text = .ok steps ∧
      Scan.steps ({ rule with global := false } :: rules) text = .ok steps' ∧
      List.Forall₂ (Step.Twins Rule.MakesAs) steps steps' := by
  obtain ⟨steps, -, hsteps, -, -⟩ := exists_steps hsound text
  obtain ⟨⟨_, lanes'⟩, hrun, rfl⟩ := exists_of_map_eq_ok hsteps
  have hleads : Lane.Leads (.start text) (.ofRule rule) (.ofRule { rule with global := false }) :=
    ⟨hsound rule List.mem_cons_self, hglobal, rfl, rfl⟩
  obtain ⟨steps', others', hrun', htwins⟩ := run_lead hleads hrun
  exact ⟨_, steps', hsteps, by rw [Scan.steps, List.map_cons, hrun']; rfl, htwins⟩

end Scan

namespace Forest

theorem token_of_makesAs {rule other : Rule} (h : rule.MakesAs other) (base : Nat) (hit : Hit)
    (c : Cursor) : token base rule hit c = token base other hit c := by
  simp only [token, h.token, h.label, h.inside]

/-- Hits by rules that make the same tokens of them become the same nodes. -/
theorem build_of_makesAs {steps steps' : List Step}
    (h : List.Forall₂ (Step.Twins Rule.MakesAs) steps steps') (base : Nat) (run : Run) :
    build base run steps = build base run steps' := by
  induction h generalizing run with
  | nil => rfl
  | cons htwins _ ih =>
      cases htwins with
      | skip stop => simp only [build, ih]
      | take hit hrules => simp only [build, token_of_makesAs hrules, ih]

theorem ofRules_lead {rule : Rule} {rules : List Rule}
    (hsound : ∀ other ∈ rule :: rules, other.Sound) (flag : Bool) :
    ofRules ({ rule with global := flag } :: rules) = ofRules (rule :: rules) := by
  obtain ⟨hrule, hrules⟩ := List.forall_mem_cons.mp hsound
  have hrepeats (repeats : Bool) : ofRules ({ rule with global := repeats } :: rules) =
      ofRules ({ rule with global := false } :: rules) := by
    cases repeats with
    | false => rfl
    | true =>
        funext base text
        obtain ⟨steps, steps', hsteps, hsteps', htwins⟩ :=
          Scan.steps_lead { rule with global := true } rfl
            (List.forall_mem_cons.mpr ⟨hrule, hrules⟩) text
        rw [ofRules, ofRules, hsteps, hsteps']
        exact build_of_makesAs htwins base _
  exact (hrepeats flag).trans (hrepeats rule.global).symm

end Forest

/-- A token whose first pattern is repeated right behind its own match, or is not. -/
def Token.leadGlobal (flag : Bool) : Token → Token
  | ⟨name, []⟩ => ⟨name, []⟩
  | ⟨name, pattern :: patterns⟩ => ⟨name, { pattern with global := flag } :: patterns⟩

namespace Grammar

/-- A grammar with the flag of the first pattern of its first token set or cleared. -/
def leadGlobal (flag : Bool) (g : Grammar) : Grammar :=
  match g.tokens with
  | [] => g
  | token :: tokens => { g with tokens := token.leadGlobal flag :: tokens }

/-- Grammars that differ at most in the flags of their first patterns, and of those of the grammars
inside patterns, at any depth. -/
inductive SameButLeads : Grammar → Grammar → Prop
  | lead (g : Grammar) (flag : Bool) : SameButLeads g (g.leadGlobal flag)
  | inside {h h' : Grammar} (name : String) (parent : Option String) (before after : List Token)
      (token : String) (ahead behind : List Pattern) (pattern : Pattern)
      (same : SameButLeads h h') :
      SameButLeads
        ⟨name, before ++ ⟨token, ahead ++ { pattern with inside := some h } :: behind⟩ :: after,
          parent⟩
        ⟨name, before ++ ⟨token, ahead ++ { pattern with inside := some h' } :: behind⟩ :: after,
          parent⟩
  | trans {g h k : Grammar} (first : SameButLeads g h) (second : SameButLeads h k) :
      SameButLeads g k

section Searching

variable [Regex.Searcher] [Regex.LawfulSearcher]

theorem ofRules_leadGlobal (g : Grammar) (flag : Bool) :
    Forest.ofRules (g.leadGlobal flag).rules = Forest.ofRules g.rules := by
  have hsound : ∀ rule ∈ g.rules, rule.Sound := fun _ => sound_of_mem_rules
  rw [rules_eq_flatMap] at hsound
  rw [rules_eq_flatMap, rules_eq_flatMap]
  unfold leadGlobal
  split
  next htokens => rw [htokens]
  next token tokens htokens =>
    rw [htokens] at hsound ⊢
    obtain ⟨name, patterns⟩ := token
    cases patterns with
    | nil => rfl
    | cons pattern patterns =>
        simp only [List.flatMap_cons, List.map_cons, List.cons_append, Token.leadGlobal] at hsound ⊢
        have hrule : { pattern with global := flag }.rule name =
            { pattern.rule name with global := flag } := by
          cases pattern
          rfl
        rw [hrule]
        exact Forest.ofRules_lead hsound flag

theorem SameButLeads.ofRules_eq {g other : Grammar} (h : g.SameButLeads other) :
    Forest.ofRules g.rules = Forest.ofRules other.rules := by
  induction h with
  | lead g flag => exact (ofRules_leadGlobal g flag).symm
  | @inside h h' name parent before after token ahead behind pattern _ ih =>
      have hrule : { pattern with inside := some h }.rule token =
          { pattern with inside := some h' }.rule token := by
        simp only [Pattern.rule, Grammar.tokenizer?, ih]
      simp only [rules_eq_flatMap, List.flatMap_append, List.flatMap_cons, List.map_append,
        List.map_cons, hrule]
  | trans _ _ ihfirst ihsecond => exact ihfirst.trans ihsecond

/-- Whether the pattern that takes precedence over all others repeats itself makes no difference to
the nodes of a text, nor does it in the grammars that make the children of nodes. -/
theorem tokenize_of_sameButLeads (g : Grammar) (text : String)
    (hwidth : Text.width text.toList < UInt32.size) :
    (∀ flag, g.TokenizesAs (g.leadGlobal flag) text) ∧
      ∀ other : Grammar, g.SameButLeads other → g.TokenizesAs other text := by
  obtain ⟨nodes, hnodes, -⟩ := g.exists_tokenize hwidth
  have hsame (other : Grammar) (h : g.SameButLeads other) : g.TokenizesAs other text := by
    refine ⟨nodes, hnodes, ?_⟩
    rw [tokenize, ← h.ofRules_eq]
    exact hnodes
  exact ⟨fun flag => hsame _ (.lead g flag), hsame⟩

end Searching

/-- The dots inside a name, and the names, are repeated to no effect. -/
theorem tokenize_of_sameButLeads_dottedName :
    ∃ g path other : Grammar, dottedName = .ok g ∧
      (∃ (token : String) (pattern : Pattern),
        g.tokens = [⟨token, [{ pattern with inside := some path }]⟩] ∧
        other.tokens =
          [⟨token, [{ pattern with global := true, inside := some (path.leadGlobal true) }]⟩]) ∧
      g.TokenizesAs (g.leadGlobal true) "é new a.b ü" ∧ g.TokenizesAs other "é new a.b ü" := by
  have hcheck : (dottedName.toOption.map fun g =>
      g.tokens.map fun token => token.patterns.map (·.inside.isSome)) = some [[true]] := by
    decide +kernel
  obtain ⟨g, hg, hshape⟩ := Option.map_eq_some_iff.mp hcheck
  match g with
  | ⟨name, [⟨token, [⟨regex, lookbehind, global, label, some path⟩]⟩], parent⟩ =>
      let pattern : Pattern := ⟨regex, lookbehind, global, label, none⟩
      have hinside := SameButLeads.inside name parent [] [] token [] [] pattern
        (.lead path true)
      obtain ⟨hlead, hother⟩ := tokenize_of_sameButLeads _ "é new a.b ü" (by decide)
      exact ⟨_, path, _, eq_ok_of_toOption_eq_some hg, ⟨token, pattern, rfl, rfl⟩, hlead true,
        hother _ (.trans hinside (.lead _ true))⟩
  | ⟨_, [], _⟩ | ⟨_, _ :: _ :: _, _⟩ | ⟨_, [⟨_, []⟩], _⟩ | ⟨_, [⟨_, _ :: _ :: _⟩], _⟩
  | ⟨_, [⟨_, [⟨_, _, _, _, none⟩]⟩], _⟩ => simp at hshape

end Grammar

end Highlight
