import Highlight.Proofs.Compose.WellFormed
import Highlight.Proofs.Scan.Asking
import Highlight.Proofs.Scan.Emission
import Mathlib.Data.List.Induction

/-!
Rules that come behind all others. A scan asks them only where the others have no hit, so that it is
the same as a scan without them up to the first hit that one of them takes (`Scan.run_append`).
Hence the tokens that a derivation appends fill gaps between the nodes of the grammar that it starts
from (`Grammar.tokenize_of_appended`).
-/

namespace Highlight

namespace Scan

/-- Two scans from a place take the same steps `front`, of hits of some rules, until the second one
takes a hit of an added rule. All that the first one takes from there on starts behind the start of
that hit. -/
structure Parts (rules added : List Rule) (c : Cursor) (steps steps' front : List Step)
    (rule : Rule) (hit : Hit) : Prop where
  mem : rule ∈ added
  le : c.offset ≤ hit.start
  before : ∀ take ∈ Step.takes front, take.1 ∈ rules ∧ take.2.stop ≤ hit.start
  behind : ∃ back, steps = front ++ back ∧ ∀ take ∈ Step.takes back, hit.start < take.2.start
  taken : ∃ back, steps' = front ++ .take rule hit :: back

/-- Scans that part from a place on also do so with the same steps in front. -/
theorem Parts.prepend {rules added : List Rule} {c d : Cursor}
    {first steps steps' front : List Step} {rule : Rule} {hit : Hit}
    (h : Parts rules added d steps steps' front rule hit) (hpath : Path rules c first d) :
    Parts rules added c (first ++ steps) (first ++ steps') (first ++ front) rule hit := by
  obtain ⟨back, rfl, hbehind⟩ := h.behind
  obtain ⟨back', rfl⟩ := h.taken
  refine ⟨h.mem, Nat.le_trans (Cursor.offset_le_of_le hpath.le) h.le, ?_,
    ⟨back, by rw [List.append_assoc], hbehind⟩, ⟨back', by rw [List.append_assoc]⟩⟩
  intro take hmem
  rw [Step.takes_append] at hmem
  rcases List.mem_append.mp hmem with hmem | hmem
  · have hstop := (hpath.bounds_of_mem_takes take hmem).2
    exact ⟨hpath.mem_rules_of_mem_takes take hmem, Nat.le_trans hstop h.le⟩
  · exact h.before take hmem

/-- Lanes behind others are asked only if those have no hit. -/
theorem askAll_append (c : Cursor) (lanes others : List Lane) :
    askAll c (lanes ++ others) = do
      let (lanes, taken) ← askAll c lanes
      match taken with
      | some answer => return (lanes ++ others, some answer)
      | none => do
          let (others, taken) ← askAll c others
          return (lanes ++ others, taken) := by
  induction lanes with
  | nil =>
      show askAll c others = do
        let (others, taken) ← askAll c others
        return (others, taken)
      cases askAll c others with
      | error fault => rfl
      | ok found => rfl
  | cons lane lanes ih =>
      rw [List.cons_append, askAll, askAll]
      cases lane.ask c with
      | error fault => rfl
      | ok answer =>
          simp only [bind, Except.bind]
          split
          next =>
            rw [ih]
            cases askAll c lanes with
            | error fault => rfl
            | ok found =>
                obtain ⟨lanes', taken⟩ := found
                cases taken with
                | some taken => rfl
                | none =>
                    simp only [bind, Except.bind, pure, Except.pure]
                    cases askAll c others with
                    | error fault => rfl
                    | ok found => rfl
          next => rfl

/-- The hits that are taken at a place begin with one right there. -/
theorem exists_hits_of_askAll {lanes lanes' : List Lane} {c : Cursor} {rule : Rule}
    {answer : Lane.Answer} (h : askAll c lanes = .ok (lanes', some (rule, answer))) :
    rule ∈ lanes.map (·.rule) ∧
      ∃ hit hits, answer.hits = hit :: hits ∧ hit.start = c.offset := by
  rcases askAll_cases h with ⟨hnone, -⟩ |
    ⟨before, lane, after, hit, answer, rfl, -, hhit, hask, heq, -⟩
  · cases hnone
  · cases heq
    refine ⟨by simp, hit, ?_⟩
    obtain ⟨-, -, -, ⟨-, inner, -, rfl⟩ | ⟨-, rfl⟩⟩ := Lane.ask_cases hhit hask
    · exact ⟨inner.hits, rfl, (Lane.hitAt?_start hhit).1⟩
    · exact ⟨[], rfl, (Lane.hitAt?_start hhit).1⟩

/-- A scan with further lanes behind its own takes the same steps, or parts from it at the first hit
that one of these takes. -/
theorem run_append {lanes others lanes' others' : List Lane} {c : Cursor}
    (hlanes : ∀ lane ∈ lanes, lane.Fits c.text) (hothers : ∀ lane ∈ others, lane.Fits c.text)
    {steps steps' : List Step} (hrun : run lanes c = .ok (steps, lanes'))
    (hrun' : run (lanes ++ others) c = .ok (steps', others')) :
    steps' = steps ∨ ∃ front rule hit,
      Parts (lanes.map (·.rule)) (others.map (·.rule)) c steps steps' front rule hit := by
  fun_induction run lanes c generalizing others steps lanes' steps' others' with
  | case1 lanes c hnext =>
      cases hrun
      rw [run_of_next?_eq_none hnext] at hrun'
      cases hrun'
      exact .inl rfl
  | case2 => cases hrun
  | case3 lanes c char d hnext next rule answer hask ih =>
      obtain ⟨_, _, hok, hrules, hfits, hpath⟩ := exists_askAll hlanes
      cases hask.symm.trans hok
      have hfirst := hpath rule answer rfl
      have htext : answer.place.text = c.text := Cursor.text_eq_of_le hfirst.le
      obtain ⟨⟨rest, lanes''⟩, hrest, heq⟩ := exists_of_bind_eq_ok hrun
      cases heq
      have hask' : askAll c (lanes ++ others) = .ok (next ++ others, some (rule, answer)) := by
        rw [askAll_append, hask]
        rfl
      rw [run_of_askAll_eq_some hnext hask'] at hrun'
      obtain ⟨⟨rest', others''⟩, hrest', heq⟩ := exists_of_bind_eq_ok hrun'
      cases heq
      rcases ih (htext ▸ hfits) (htext ▸ hothers) hrest hrest' with
        rfl | ⟨front, added, hit, hparts⟩
      · exact .inl rfl
      · rw [hrules] at hparts
        exact .inr ⟨_, added, hit, hparts.prepend hfirst⟩
  | case4 lanes c char d hnext next hask ih =>
      obtain ⟨_, _, hok, hrules, hfits, -⟩ := exists_askAll hlanes
      cases hask.symm.trans hok
      have htext : d.text = c.text := Cursor.text_eq_of_le (Cursor.le_of_next? hnext)
      obtain ⟨⟨rest, lanes''⟩, hrest, heq⟩ := exists_of_bind_eq_ok hrun
      cases heq
      obtain ⟨others'', taken, hasked, hrules', hfits', hpath'⟩ := exists_askAll hothers
      have hask' : askAll c (lanes ++ others) = .ok (next ++ others'', taken) := by
        rw [askAll_append, hask]
        simp only [bind, Except.bind, hasked]
        rfl
      cases taken with
      | none =>
          rw [run_of_askAll_eq_none hnext hask'] at hrun'
          obtain ⟨⟨rest', _⟩, hrest', heq⟩ := exists_of_bind_eq_ok hrun'
          cases heq
          rcases ih (htext ▸ hfits) (htext ▸ hfits') hrest hrest' with
            rfl | ⟨front, added, hit, hparts⟩
          · exact .inl rfl
          · rw [hrules, hrules'] at hparts
            exact .inr ⟨_, added, hit, hparts.prepend (.skip hnext (.nil d))⟩
      | some found =>
          obtain ⟨rule, answer⟩ := found
          rw [run_of_askAll_eq_some hnext hask'] at hrun'
          obtain ⟨⟨rest', _⟩, hrest', heq⟩ := exists_of_bind_eq_ok hrun'
          cases heq
          obtain ⟨hmem, hit, hits, hhits, hstart⟩ := exists_hits_of_askAll hasked
          obtain ⟨_, _, e, hrun, hpath, -⟩ := exists_run (htext ▸ hfits)
          cases hrest.symm.trans hrun
          -- The scan without the added rules goes on behind the character at this place.
          have hnone : ∀ take ∈ Step.takes [],
              take.1 ∈ lanes.map (·.rule) ∧ take.2.stop ≤ hit.start :=
            List.forall_mem_nil _
          refine .inr ⟨[], rule, hit, hmem, Nat.le_of_eq hstart.symm, hnone,
            ⟨.skip d.offset :: rest, rfl, ?_⟩, ⟨hits.map (.take rule) ++ rest', ?_⟩⟩
          · intro take htake
            rw [hstart]
            exact Nat.lt_of_lt_of_le (Cursor.offset_lt_of_next? hnext)
              (hpath.bounds_of_mem_takes take htake).1
          · rw [hhits]
            rfl

theorem steps_append {rules added : List Rule} (hsound : ∀ rule ∈ rules ++ added, rule.Sound)
    (text : List Char) :
    ∃ steps steps', Scan.steps rules text = .ok steps ∧
      Scan.steps (rules ++ added) text = .ok steps' ∧
      (steps' = steps ∨ ∃ front rule hit,
        Parts rules added (.start text) steps steps' front rule hit) := by
  obtain ⟨hrules, hadded⟩ := List.forall_mem_append.mp hsound
  obtain ⟨_, -, hsteps, -⟩ := exists_steps hrules text
  obtain ⟨_, -, hsteps', -⟩ := exists_steps hsound text
  obtain ⟨⟨steps, _⟩, hrun, rfl⟩ := exists_of_map_eq_ok hsteps
  obtain ⟨⟨steps', _⟩, hrun', rfl⟩ := exists_of_map_eq_ok hsteps'
  rw [List.map_append] at hrun'
  have hparts := run_append (Lane.fits_of_mem_ofRule hrules _) (Lane.fits_of_mem_ofRule hadded _)
    hrun hrun'
  rw [Lane.map_rule_ofRule, Lane.map_rule_ofRule] at hparts
  exact ⟨steps, steps', hsteps, hsteps', hparts⟩

end Scan

theorem forall₂_of_append {α β : Type} {R : α → β → Prop} {xs ys : List α} {zs ws : List β}
    (h : List.Forall₂ R (xs ++ ys) (zs ++ ws)) (hlength : zs.length = xs.length) :
    List.Forall₂ R xs zs ∧ List.Forall₂ R ys ws := by
  have hfront := List.forall₂_take_append _ zs ws h
  have hback := List.forall₂_drop_append _ zs ws h
  rw [hlength, List.take_left] at hfront
  rw [hlength, List.drop_left] at hback
  exact ⟨hfront, hback⟩

namespace Forest

/-- Steps that begin alike make matched nodes that begin alike, one for each hit. -/
theorem exists_common_of_build {base : Nat} {run : Run} {front back back' : List Step}
    {nodes others : List Node} (h : build base run (front ++ back) = .ok nodes)
    (h' : build base run (front ++ back') = .ok others) :
    ∃ common rest rest', nodes.filterMap Node.matched? = common ++ rest ∧
      others.filterMap Node.matched? = common ++ rest' ∧
      common.length = (Step.takes front).length := by
  induction front generalizing run nodes others with
  | nil => exact ⟨[], _, _, rfl, rfl, rfl⟩
  | cons step front ih =>
      cases step with
      | skip stop =>
          obtain ⟨run', hextend, h⟩ := exists_of_bind_eq_ok h
          obtain ⟨run'', hextend', h'⟩ := exists_of_bind_eq_ok h'
          cases hextend.symm.trans hextend'
          exact ih h h'
      | take rule hit =>
          obtain ⟨run', before, node, place, after, hextend, hbefore, htoken, hafter, rfl⟩ :=
            exists_of_build_take h
          obtain ⟨run'', before', node', place', after', hextend', hbefore', htoken', hafter',
            rfl⟩ := exists_of_build_take h'
          cases hextend.symm.trans hextend'
          cases htoken.symm.trans htoken'
          obtain ⟨common, rest, rest', heq, heq', hlength⟩ := ih hafter hafter'
          obtain ⟨text, matched, rfl, -⟩ := exists_tokenOf_of_token_eq_ok htoken
          refine ⟨matched :: common, rest, rest', ?_, ?_, congrArg (· + 1) hlength⟩
          · rw [List.filterMap_append, filterMap_matched?_of_literal hbefore]
            exact congrArg (matched :: ·) heq
          · rw [List.filterMap_append, filterMap_matched?_of_literal hbefore']
            exact congrArg (matched :: ·) heq'

end Forest

theorem Sieve.sift_all (s : Unit) (tokens : List Token) : Sieve.all.sift s tokens = tokens := by
  induction tokens with
  | nil => rfl
  | cons token rest ih =>
      rw [Sieve.sift]
      exact congrArg (token :: ·) ih

namespace Grammar

theorem exists_tokens_upsert_eq {g d : Grammar} {token : Token} {added : List Token}
    (htokens : d.tokens = g.tokens ++ added) (hnew : token.name ∉ g.tokenNames) :
    ∃ added', (d.upsert token).tokens = g.tokens ++ added' ∧
      ∀ t ∈ added', t ∈ added ∨ t = token := by
  unfold upsert
  split
  next =>
    refine ⟨added.map fun t => if t.name == token.name then token else t, ?_, ?_⟩
    · have hsame :
          g.tokens.map (fun t => if t.name == token.name then token else t) = g.tokens := by
        refine List.map_congr_left (fun t ht => ?_) |>.trans (List.map_id _)
        refine if_neg fun heq => hnew ?_
        rw [← eq_of_beq heq]
        exact List.mem_map_of_mem ht
      simp only [htokens, List.map_append, hsame]
    · intro t ht
      obtain ⟨t', ht', rfl⟩ := List.mem_map.mp ht
      split
      · exact .inr rfl
      · exact .inl ht'
  next =>
    refine ⟨added ++ [token], by simp only [htokens, List.append_assoc], ?_⟩
    intro t ht
    simpa using ht

/-- Tokens of new names that a derivation adds to all of a grammar come behind those there are. -/
theorem exists_tokens_derive_eq (g : Grammar) (name : String) {tokens : List Token}
    (hnew : ∀ token ∈ tokens, token.name ∉ g.tokenNames) :
    ∃ added, (g.derive name .all tokens).grammar.tokens = g.tokens ++ added ∧
      ∀ token ∈ added, token ∈ tokens := by
  unfold derive
  induction tokens using List.reverseRecOn with
  | nil =>
      refine ⟨[], ?_, fun token h => nomatch h⟩
      rw [List.append_nil]
      exact Sieve.sift_all _ g.tokens
  | append_singleton tokens token ih =>
      have hfront : ∀ other ∈ tokens, other.name ∉ g.tokenNames := fun other h =>
        hnew other (List.mem_append_left _ h)
      obtain ⟨added, htokens, hadded⟩ := ih hfront
      obtain ⟨added', htokens', hadded'⟩ :=
        exists_tokens_upsert_eq htokens (hnew token (by simp))
      refine ⟨added', ?_, ?_⟩
      · rw [List.foldl_concat, Derivation.grammar_add, htokens']
      · intro t ht
        rcases hadded' t ht with h | rfl
        · exact List.mem_append_left _ (hadded t h)
        · simp

section Searching

variable [Regex.Searcher]

/-- Among the matched nodes that a grammar makes of a text, `first` is the first one that a pattern
of some tokens emits, for the match `hit`, and `before` are those in front of it. -/
structure EmitsFirst (g : Grammar) (tokens : List Token) (text : String) (nodes : List Node)
    (before : List Matched) (hit : Hit) (first : Matched) : Prop where
  nodes_eq : ∃ after, nodes.filterMap Node.matched? = before ++ first :: after
  emits : ∃ entry, g.Emits text entry hit first ∧ entry.1 ∈ tokens
  others : ∀ matched ∈ before, ∀ entry hit, g.Emits text entry hit matched → entry.1 ∉ tokens

theorem token_mem_tokenNames {g : Grammar} {rule : Rule} (h : rule ∈ g.rules) :
    rule.token ∈ g.tokenNames := by
  obtain ⟨token, htoken, pattern, -, rfl⟩ := mem_rules_iff.mp h
  rw [Pattern.rule_token]
  exact List.mem_map_of_mem htoken

/-- The rules of appended tokens come behind those of the grammar. -/
theorem rules_append {g derived : Grammar} {added : List Token}
    (htokens : derived.tokens = g.tokens ++ added) :
    derived.rules =
      g.rules ++ added.flatMap fun token => token.patterns.map (·.rule token.name) := by
  rw [rules_eq_flatMap, rules_eq_flatMap, htokens, List.flatMap_append]

variable [Regex.LawfulSearcher]

/-- A node that a pattern emits has the name of a token of the grammar. -/
theorem Emits.name_eq {g : Grammar} {text : String} {entry : Token × Pattern} {hit : Hit}
    {matched : Matched} (hwidth : Text.width text.toList < UInt32.size)
    (h : g.Emits text entry hit matched) : matched.name = entry.1.name := by
  obtain ⟨_, -, -, -, htoken⟩ := h.standsFor hwidth
  exact htoken.name_eq.trans (Pattern.rule_token _ _)

section Parts

variable {g derived : Grammar} {tokens : List Token} {text : String} {nodes others : List Node}
  {steps steps' front : List Step} {added : List Rule} {rule : Rule} {hit : Hit}
  (hwidth : Text.width text.toList < UInt32.size)
  (hsteps : Scan.steps g.rules text.toList = .ok steps)
  (hsteps' : Scan.steps derived.rules text.toList = .ok steps')
  (hnodes : g.tokenize text = .ok nodes) (hothers : derived.tokenize text = .ok others)
  (hparts : Scan.Parts g.rules added (.start text.toList) steps steps' front rule hit)

include hwidth hsteps hsteps' hnodes hothers hparts

/-- Where two scans part, the matched nodes so far are common to both texts. They end in front of
the hit, and all others of the first text begin behind its start. -/
theorem exists_common_of_parts :
    ∃ common rest first after, nodes.filterMap Node.matched? = common ++ rest ∧
      others.filterMap Node.matched? = common ++ first :: after ∧
      ((rule, hit), first) ∈ (Step.takes steps').zip (others.filterMap Node.matched?) ∧
      (∀ matched ∈ common, matched.name ∈ g.tokenNames ∧
        matched.range.stop.toNat ≤ hit.start) ∧
      ∀ matched ∈ rest, hit.start < matched.range.start.toNat := by
  have hwidth' : 0 + Text.width text.toList < UInt32.size := by rwa [Nat.zero_add]
  obtain ⟨-, hall⟩ := standsFor_of_steps hwidth' hsteps hnodes
  obtain ⟨-, hall'⟩ := standsFor_of_steps hwidth' hsteps' hothers
  have hbuild := Forest.build_of_steps hsteps hnodes
  have hbuild' := Forest.build_of_steps hsteps' hothers
  obtain ⟨back, rfl, hbehind⟩ := hparts.behind
  obtain ⟨back', rfl⟩ := hparts.taken
  obtain ⟨common, rest, rest', heq, heq', hlength⟩ := Forest.exists_common_of_build hbuild hbuild'
  rw [Step.takes_append, heq] at hall
  rw [Step.takes_append, heq'] at hall'
  obtain ⟨hcommon, hrest⟩ := forall₂_of_append hall hlength
  obtain ⟨-, hrest'⟩ := forall₂_of_append hall' hlength
  cases hrest' with
  | @cons _ first _ after _ _ =>
      refine ⟨common, rest, first, after, heq, heq', ?_, ?_, ?_⟩
      · rw [heq', Step.takes_append, List.zip_append hlength.symm]
        exact List.mem_append_right _ List.mem_cons_self
      · intro matched hmem
        obtain ⟨take, hzip⟩ := exists_mem_zip_of_forall₂ hcommon hmem
        have hstands := List.forall₂_zip hcommon hzip
        obtain ⟨hrule, hstop⟩ := hparts.before take (List.of_mem_zip hzip).1
        obtain ⟨_, -, -, -, htoken⟩ := id hstands
        refine ⟨htoken.name_eq ▸ token_mem_tokenNames hrule, ?_⟩
        rw [hstands.ends.2, Nat.zero_add]
        exact hstop
      · intro matched hmem
        obtain ⟨take, hzip⟩ := exists_mem_zip_of_forall₂ hrest hmem
        have hstart := hbehind take (List.of_mem_zip hzip).1
        rw [(List.forall₂_zip hrest hzip).ends.1, Nat.zero_add]
        exact Nat.lt_of_lt_of_le hstart take.2.start_le_contextEnd

end Parts

section Appended

variable {g derived : Grammar} {tokens added : List Token} {text : String}
  {nodes others : List Node} {steps steps' front : List Step} {rule : Rule} {hit : Hit}
  (htokens : derived.tokens = g.tokens ++ added) (hadded : ∀ token ∈ added, token ∈ tokens)
  (hnew : ∀ token ∈ tokens, token.name ∉ g.tokenNames)
  (hwidth : Text.width text.toList < UInt32.size)
  (hsteps : Scan.steps g.rules text.toList = .ok steps) (hnodes : g.tokenize text = .ok nodes)

include hnew hwidth hsteps hnodes

/-- With the steps of the grammar, no pattern of a token of another name emits anything. -/
theorem not_mem_of_emits (hsteps' : Scan.steps derived.rules text.toList = .ok steps)
    {entry : Token × Pattern} {matched : Matched} (h : derived.Emits text entry hit matched) :
    entry.1 ∉ tokens := by
  intro hmem
  obtain ⟨hmems, -⟩ := standsFor_of_steps (by rwa [Nat.zero_add]) hsteps hnodes
  obtain ⟨-, _, _, hsame, -, hzip⟩ := h
  cases hsame.symm.trans hsteps'
  have hname := token_mem_tokenNames (hmems _ (List.of_mem_zip hzip).1)
  rw [Pattern.rule_token] at hname
  exact hnew entry.1 hmem hname

include htokens hadded

/-- Where the scans part, the first node of an appended token fills a gap. -/
theorem exists_first_of_parts (hsteps' : Scan.steps derived.rules text.toList = .ok steps')
    (hothers : derived.tokenize text = .ok others)
    (hparts : Scan.Parts g.rules (added.flatMap fun token => token.patterns.map (·.rule token.name))
      (.start text.toList) steps steps' front rule hit) :
    ∃ before first, derived.EmitsFirst tokens text others before hit first ∧
      before = (nodes.filterMap Node.matched?).filter (·.range.stop.toNat ≤ hit.start) ∧
      ∀ matched, .matched matched ∈ nodes → ¬ (matched.range.start.toNat ≤ hit.start ∧
        hit.start < matched.range.stop.toNat) := by
  obtain ⟨common, rest, first, after, heq, heq', hzip, hcommon, hrest⟩ :=
    exists_common_of_parts hwidth hsteps hsteps' hnodes hothers hparts
  obtain ⟨token, htoken, hpattern⟩ := List.mem_flatMap.mp hparts.mem
  obtain ⟨pattern, hpattern, hrule⟩ := List.mem_map.mp hpattern
  have hentry : (token, pattern) ∈ derived.entries :=
    mem_entries_iff.mpr ⟨htokens ▸ List.mem_append_right _ htoken, hpattern⟩
  have hemits : derived.Emits text (token, pattern) hit first :=
    ⟨hentry, steps', others, hsteps', hothers, hrule ▸ hzip⟩
  refine ⟨common, first, ⟨⟨after, heq'⟩, ⟨_, hemits, hadded token htoken⟩, ?_⟩, ?_, ?_⟩
  · intro matched hmem entry hit' hemits' hmem'
    exact hnew entry.1 hmem' (hemits'.name_eq hwidth ▸ (hcommon matched hmem).1)
  · have hfront : common.filter (·.range.stop.toNat ≤ hit.start) = common :=
      List.filter_eq_self.mpr fun matched hmem => decide_eq_true (hcommon matched hmem).2
    have hback : rest.filter (·.range.stop.toNat ≤ hit.start) = [] := by
      refine List.filter_eq_nil_iff.mpr fun matched hmem => ?_
      have hstart := hrest matched hmem
      have hle : matched.range.start.toNat ≤ matched.range.stop.toNat := matched.range.start_le_stop
      simp only [decide_eq_true_eq]
      omega
    rw [heq, List.filter_append, hfront, hback, List.append_nil]
  · intro matched hmem ⟨hstart, hstop⟩
    have hmem : matched ∈ common ++ rest := by
      rw [← heq]
      exact List.mem_filterMap.mpr ⟨_, hmem, rfl⟩
    rcases List.mem_append.mp hmem with hmem | hmem
    · exact Nat.not_lt.mpr (hcommon matched hmem).2 hstop
    · exact Nat.not_lt.mpr hstart (hrest matched hmem)

end Appended

/-- Appended tokens fill gaps. By a grammar that keeps all tokens of another one and appends some
of new names, a text has the same nodes, or the matched nodes in front of the first one of an
appended token are those that end in front of where its match starts, and there is no other at
that place. -/
theorem tokenize_of_appended (g : Grammar) (name : String) {tokens : List Token}
    (hnew : ∀ token ∈ tokens, token.name ∉ g.tokenNames) {text : String}
    (hwidth : Text.width text.toList < UInt32.size) :
    ∃ (derived : Grammar) (nodes others : List Node),
      derived = (g.derive name .all tokens).grammar ∧ g.tokenize text = .ok nodes ∧
      derived.tokenize text = .ok others ∧
      ((others = nodes ∧
          ∀ entry hit matched, derived.Emits text entry hit matched → entry.1 ∉ tokens) ∨
        ∃ before hit first, derived.EmitsFirst tokens text others before hit first ∧
          before = (nodes.filterMap Node.matched?).filter (·.range.stop.toNat ≤ hit.start) ∧
          ∀ matched, .matched matched ∈ nodes → ¬ (matched.range.start.toNat ≤ hit.start ∧
            hit.start < matched.range.stop.toNat)) := by
  obtain ⟨added, htokens, hadded⟩ := g.exists_tokens_derive_eq name hnew
  generalize (g.derive name .all tokens).grammar = derived at htokens
  have hrules := rules_append htokens
  obtain ⟨nodes, hnodes, -⟩ := g.exists_tokenize hwidth
  obtain ⟨others, hothers, -⟩ := derived.exists_tokenize hwidth
  obtain ⟨steps, steps', hsteps, hsteps', hcases⟩ :=
    Scan.steps_append (hrules ▸ fun _ => sound_of_mem_rules (g := derived)) text.toList
  rw [← hrules] at hsteps'
  refine ⟨derived, nodes, others, rfl, hnodes, hothers, ?_⟩
  rcases hcases with rfl | ⟨front, rule, hit, hparts⟩
  · have hbuild := Forest.build_of_steps hsteps hnodes
    have hbuild' := Forest.build_of_steps hsteps' hothers
    exact .inl ⟨Except.ok.inj (hbuild'.symm.trans hbuild), fun _ _ _ =>
      not_mem_of_emits hnew hwidth hsteps hnodes hsteps'⟩
  · obtain ⟨before, first, hfirst⟩ :=
      exists_first_of_parts htokens hadded hnew hwidth hsteps hnodes hsteps' hothers hparts
    exact .inr ⟨before, hit, first, hfirst⟩

end Searching

/-- A token for the letter behind the name comes behind all nodes there are. -/
theorem tokenize_of_appended_dottedName :
    ∃ g umlaut nodes others before hit first, dottedName = .ok g ∧
      Token.compile "umlaut" [.plain "ü"] = .ok umlaut ∧
      g.tokenize "é new a.b ü" = .ok nodes ∧
      (g.derive "call" .all [umlaut]).grammar.tokenize "é new a.b ü" = .ok others ∧
      nodes.map (·.text) = ["é new ", "a.b", " ü"] ∧
      others.map (·.text) = ["é new ", "a.b", " ", "ü"] ∧
      (g.derive "call" .all [umlaut]).grammar.EmitsFirst [umlaut] "é new a.b ü" others before hit
        first ∧
      before = (nodes.filterMap Node.matched?).filter (·.range.stop.toNat ≤ hit.start) := by
  have hcheck : (dottedName.toOption.bind fun g =>
      (Token.compile "umlaut" [.plain "ü"]).toOption.bind fun umlaut =>
        (g.tokenize "é new a.b ü").toOption.bind fun nodes =>
          ((g.derive "call" .all [umlaut]).grammar.tokenize
            "é new a.b ü").toOption.map fun others =>
            (decide (∀ token ∈ [umlaut], token.name ∉ g.tokenNames), nodes.map (·.text),
              others.map (·.text))) =
      some (true, ["é new ", "a.b", " ü"], ["é new ", "a.b", " ", "ü"]) := by decide +kernel
  obtain ⟨g, hg, hcheck⟩ := Option.bind_eq_some_iff.mp hcheck
  obtain ⟨umlaut, humlaut, hcheck⟩ := Option.bind_eq_some_iff.mp hcheck
  obtain ⟨nodes, hnodes, hcheck⟩ := Option.bind_eq_some_iff.mp hcheck
  obtain ⟨others, hothers, hcheck⟩ := Option.map_eq_some_iff.mp hcheck
  obtain ⟨hnew, htexts⟩ := Prod.mk.inj hcheck
  obtain ⟨htexts, htexts'⟩ := Prod.mk.inj htexts
  have hnodes := eq_ok_of_toOption_eq_some hnodes
  have hothers := eq_ok_of_toOption_eq_some hothers
  obtain ⟨_, nodes', others', rfl, hnodes', hothers', hcases⟩ :=
    g.tokenize_of_appended "call" (of_decide_eq_true hnew)
      (show Text.width "é new a.b ü".toList < UInt32.size by decide)
  cases hnodes.symm.trans hnodes'
  cases hothers.symm.trans hothers'
  rcases hcases with ⟨rfl, -⟩ | ⟨before, hit, first, hfirst, hbefore, -⟩
  · simp [htexts] at htexts'
  · exact ⟨g, umlaut, nodes, others, before, hit, first, eq_ok_of_toOption_eq_some hg,
      eq_ok_of_toOption_eq_some humlaut, hnodes, hothers, htexts, htexts', hfirst, hbefore⟩

end Grammar

end Highlight
