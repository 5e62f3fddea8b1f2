import Highlight.Proofs.Compose.Splice
import Highlight.Proofs.Scan.Emission
import Highlight.Proofs.Scan.Lockstep

/-!
Patterns that have no match in a text. A scan cannot tell whether they are there, so that grammars
with the same patterns otherwise make the same nodes of the text (`Grammar.tokenize_of_heard`).
-/

namespace Highlight

namespace Sieve

variable {σ : Type}

def refuse (sieve : Sieve σ) (s : σ) : List Token → List Token
  | [] => []
  | token :: rest =>
      match sieve.keeps token s with
      | (true, s) => sieve.refuse s rest
      | (false, s) => token :: sieve.refuse s rest

/-- The tokens that a sieve leaves out. -/
def refused (sieve : Sieve σ) (tokens : List Token) : List Token :=
  sieve.refuse sieve.start tokens

theorem refuse_all (s : Unit) (tokens : List Token) : refuse .all s tokens = [] := by
  induction tokens with
  | nil => rfl
  | cons token rest ih =>
      rw [refuse]
      exact ih

end Sieve

section Searching

variable [Regex.Searcher]

/-- Whether a search from some place of a text finds a match that leaves text for a token. -/
def Pattern.isHeardIn (text : List Char) (p : Pattern) : Bool :=
  (Cursor.start text).onward.any fun c => (p.hit? c).any Hit.emits

theorem Pattern.isHeardIn_iff {text : List Char} {p : Pattern} :
    p.isHeardIn text = true ↔ ∃ offset, p.EmitsAt text offset := by
  simp only [isHeardIn, List.any_eq_true, Option.any_eq_true]
  constructor
  · rintro ⟨c, hmem, hit, hhit, hemits⟩
    have htext : c.text = text :=
      (Cursor.text_eq_of_le (Cursor.mem_onward_iff.mp hmem)).trans (Cursor.start_text text)
    exact ⟨hit.start, c, hit, htext, hhit, rfl, hemits⟩
  · rintro ⟨offset, c, hit, rfl, hhit, -, hemits⟩
    have hstart : Cursor.start c.text ≤ c :=
      Cursor.le_of_text_eq (Cursor.start_text c.text) (Nat.zero_le _)
    exact ⟨c, Cursor.mem_onward_iff.mpr hstart, hit, hhit, hemits⟩

/-- A token none of whose patterns has a match in a text that leaves text for it. -/
def Token.SilentIn (text : List Char) (t : Token) : Prop :=
  ∀ p ∈ t.patterns, ∀ offset, ¬ p.EmitsAt text offset

instance (text : List Char) (t : Token) : Decidable (t.SilentIn text) :=
  decidable_of_iff (∀ p ∈ t.patterns, p.isHeardIn text = false) <| by
    simp only [Token.SilentIn, ← not_exists, ← Pattern.isHeardIn_iff, Bool.not_eq_true]

/-- The patterns of a token that have such a match, with its name. -/
def Token.heard (text : List Char) (t : Token) : List (String × Pattern) :=
  (t.patterns.filter (·.isHeardIn text)).map fun pattern => (t.name, pattern)

namespace Grammar

/-- The patterns of a grammar with the names of their tokens, in order of precedence. -/
def sequence (g : Grammar) : List (String × Pattern) :=
  g.entries.map fun entry => (entry.1.name, entry.2)

/-- What is left of the patterns of a grammar without those that have no match in a text. -/
def heard (g : Grammar) (text : List Char) : List (String × Pattern) :=
  g.sequence.filter fun entry => entry.2.isHeardIn text

/-- Two grammars make the same nodes of a text. -/
def TokenizesAs (g other : Grammar) (text : String) : Prop :=
  ∃ nodes, g.tokenize text = .ok nodes ∧ other.tokenize text = .ok nodes

theorem rules_eq_map_sequence (g : Grammar) :
    g.rules = g.sequence.map fun entry => entry.2.rule entry.1 := by
  rw [rules_eq_map_entries, sequence, List.map_map]
  rfl

end Grammar

theorem Pattern.silent_rule {text : List Char} {p : Pattern} (h : p.isHeardIn text = false)
    (name : String) : (p.rule name).Silent text := by
  intro c hit htext hfind
  rw [rule_find] at hfind
  by_contra hemits
  have hheard : p.isHeardIn text = true :=
    isHeardIn_iff.mpr ⟨hit.start, c, hit, htext, hfind, rfl, by simpa using hemits⟩
  rw [h] at hheard
  cases hheard

theorem Token.SilentIn.heard_eq_nil {text : List Char} {t : Token} (h : t.SilentIn text) :
    t.heard text = [] := by
  rw [heard, List.map_eq_nil_iff, List.filter_eq_nil_iff]
  intro p hmem hheard
  obtain ⟨offset, hemits⟩ := Pattern.isHeardIn_iff.mp hheard
  exact h p hmem offset hemits

namespace Scan

theorem silent_ofRule {text : List Char} {entry : String × Pattern}
    (h : entry.2.isHeardIn text = false) :
    (Lane.ofRule (entry.2.rule entry.1)).Silent text :=
  ⟨Pattern.silent_rule h entry.1, by simp [Lane.ofRule]⟩

theorem lockstep_nil_of_silent {text : List Char} {entries : List (String × Pattern)}
    {lanes others : List Lane} (h : ∀ entry ∈ entries, entry.2.isHeardIn text = false)
    (hrest : Lockstep Eq text lanes others) :
    Lockstep Eq text lanes
      (entries.map (fun entry => Lane.ofRule (entry.2.rule entry.1)) ++ others) := by
  induction entries with
  | nil => exact hrest
  | cons entry entries ih =>
      obtain ⟨hentry, hentries⟩ := List.forall_mem_cons.mp h
      exact .right (silent_ofRule hentry) (ih hentries)

/-- Scans by patterns that are the same but for silent ones start in lockstep. -/
theorem lockstep_of_filter_eq {text : List Char} {entries others : List (String × Pattern)}
    (h : entries.filter (·.2.isHeardIn text) = others.filter (·.2.isHeardIn text)) :
    Lockstep Eq text (entries.map fun entry => Lane.ofRule (entry.2.rule entry.1))
      (others.map fun entry => Lane.ofRule (entry.2.rule entry.1)) := by
  induction entries generalizing others with
  | nil =>
      have hsilent : ∀ entry ∈ others, entry.2.isHeardIn text = false := by
        simpa [List.filter_eq_nil_iff] using h.symm
      simpa using lockstep_nil_of_silent hsilent .nil
  | cons entry entries ih =>
      cases hheard : entry.2.isHeardIn text with
      | false =>
          rw [List.filter_cons, if_neg (by simp [hheard])] at h
          exact .left (silent_ofRule hheard) (ih h)
      | true =>
          rw [List.filter_cons, if_pos hheard] at h
          obtain ⟨before, after, rfl, hsilent, -, hafter⟩ := List.filter_eq_cons_iff.mp h.symm
          rw [List.map_append]
          exact lockstep_nil_of_silent (by simpa using hsilent) (.both ⟨rfl, rfl⟩ (ih hafter.symm))

end Scan

namespace Grammar

/-- Grammars that have the same patterns but for silent ones make the same nodes of a text. -/
theorem tokenizesAs_of_heard_eq [Regex.LawfulSearcher] {g other : Grammar} {text : String}
    (hwidth : Text.width text.toList < UInt32.size)
    (h : g.heard text.toList = other.heard text.toList) : g.TokenizesAs other text := by
  have hlockstep : Scan.Lockstep Eq text.toList (g.rules.map Lane.ofRule)
      (other.rules.map Lane.ofRule) := by
    rw [rules_eq_map_sequence, rules_eq_map_sequence, List.map_map, List.map_map]
    exact Scan.lockstep_of_filter_eq h
  have hfinds : ∀ rule other : Rule, rule = other → rule.FindsAs other := by
    rintro rule _ rfl
    exact ⟨rfl, rfl⟩
  obtain ⟨steps, steps', hsteps, hsteps', htwins⟩ :=
    Scan.steps_lockstep hfinds (fun _ => sound_of_mem_rules) hlockstep
  have hsame : steps = steps' := by
    refine List.forall₂_eq_eq_eq ▸ htwins.imp ?_
    rintro _ _ (_ | ⟨_, rfl⟩)
    · rfl
    · rfl
  obtain ⟨nodes, hnodes, -⟩ := g.exists_tokenize hwidth
  refine ⟨nodes, hnodes, ?_⟩
  rw [tokenize, Forest.ofRules, hsteps', ← hsame, ← hsteps]
  exact hnodes

theorem heard_eq_flatMap (g : Grammar) (text : List Char) :
    g.heard text = g.tokens.flatMap (·.heard text) := by
  simp only [heard, sequence, entries, Token.heard, List.map_flatMap, List.map_map,
    List.filter_flatMap, List.filter_map, Function.comp_def]

theorem flatMap_heard_eq_nil {text : List Char} {tokens : List Token}
    (h : ∀ token ∈ tokens, token.SilentIn text) : tokens.flatMap (·.heard text) = [] := by
  simp only [List.flatMap_eq_nil_iff]
  intro token hmem
  exact (h token hmem).heard_eq_nil

theorem heard_of_insert {g other : Grammar} {side : Side} {anchor : String} {tokens : List Token}
    {text : List Char} (htop : '/' ∉ anchor.toList)
    (hsilent : ∀ token ∈ tokens, token.SilentIn text)
    (h : g.insert side anchor tokens = .ok other) : g.heard text = other.heard text := by
  obtain ⟨before, token, after, hsplits⟩ := splits_of_insert htop h
  rw [heard_eq_flatMap, heard_eq_flatMap, hsplits.tokens_eq, hsplits.spliced]
  cases side with
  | before => simp [flatMap_heard_eq_nil hsilent]
  | after => simp [flatMap_heard_eq_nil hsilent]

theorem flatMap_heard_sift {σ : Type} (sieve : Sieve σ) {text : List Char} (s : σ)
    {tokens : List Token} (h : ∀ token ∈ sieve.refuse s tokens, token.SilentIn text) :
    (sieve.sift s tokens).flatMap (·.heard text) = tokens.flatMap (·.heard text) := by
  induction tokens generalizing s with
  | nil => rfl
  | cons token rest ih =>
      rw [Sieve.refuse] at h
      split at h
      next s' hkeeps =>
        simp only [Sieve.sift, hkeeps, List.flatMap_cons, ih s' h]
      next s' hkeeps =>
        obtain ⟨htoken, hrest⟩ := List.forall_mem_cons.mp h
        simp only [Sieve.sift, hkeeps, List.flatMap_cons, htoken.heard_eq_nil, List.nil_append,
          ih s' hrest]

/-- A silent token may be added, and take the place of a silent one. -/
theorem heard_upsert {g : Grammar} {token : Token} {text : List Char} (h : token.SilentIn text)
    (hover : ∀ t ∈ g.tokens, t.name = token.name → t.SilentIn text) :
    (g.upsert token).heard text = g.heard text := by
  unfold upsert
  split
  next =>
    rw [heard_eq_flatMap, heard_eq_flatMap, List.flatMap_map]
    refine List.flatMap_congr fun t ht => ?_
    by_cases hname : t.name = token.name
    · simp [hname, h.heard_eq_nil, (hover t ht hname).heard_eq_nil]
    · simp [hname]
  next =>
    rw [heard_eq_flatMap, heard_eq_flatMap]
    simp [h.heard_eq_nil]

theorem heard_derive {σ : Type} (g : Grammar) (name : String) (sieve : Sieve σ)
    {tokens : List Token} {text : List Char}
    (hrefused : ∀ token ∈ sieve.refused g.tokens, token.SilentIn text)
    (hsilent : ∀ token ∈ tokens, token.SilentIn text)
    (hover : ∀ token ∈ tokens, ∀ t ∈ g.tokens, t.name = token.name → t.SilentIn text) :
    (g.derive name sieve tokens).grammar.heard text = g.heard text := by
  have hstart : (Derivation.start g name sieve).grammar.heard text = g.heard text := by
    rw [heard_eq_flatMap, heard_eq_flatMap]
    exact flatMap_heard_sift sieve sieve.start hrefused
  have hsub : ∀ token ∈ tokens, ∀ t ∈ (Derivation.start g name sieve).grammar.tokens,
      t.name = token.name → t.SilentIn text := by
    intro token htoken t ht
    exact hover token htoken t ((sieve.apply_sublist g.tokens).subset ht)
  rw [← hstart, derive]
  clear hover hstart
  -- A token added before may be the one that the next is put in place of, and is silent as well.
  generalize Derivation.start g name sieve = d at hsub
  induction tokens generalizing d with
  | nil => rfl
  | cons token rest ih =>
      obtain ⟨htoken, hrest⟩ := List.forall_mem_cons.mp hsilent
      obtain ⟨hfirst, hothers⟩ := List.forall_mem_cons.mp hsub
      rw [List.foldl_cons, ih hrest, Derivation.grammar_add, heard_upsert htoken hfirst]
      intro other hother t ht hname
      rw [Derivation.grammar_add] at ht
      rcases mem_tokens_upsert ht with rfl | ht
      · exact htoken
      · exact hothers other hother t ht hname

theorem heard_of_pushAll {g other : Grammar} {tokens : List Token} {text : List Char}
    (hsilent : ∀ token ∈ tokens, token.SilentIn text) (h : g.pushAll tokens = .ok other) :
    g.heard text = other.heard text := by
  induction tokens generalizing g with
  | nil =>
      cases h
      rfl
  | cons token rest ih =>
      obtain ⟨htoken, hrest⟩ := List.forall_mem_cons.mp hsilent
      obtain ⟨next, hpush, hpushAll⟩ := exists_of_bind_eq_ok h
      rw [← ih hrest hpushAll]
      unfold push at hpush
      split at hpush
      next => cases hpush
      next =>
        cases hpush
        rw [heard_eq_flatMap, heard_eq_flatMap]
        simp [htoken.heard_eq_nil]

/-- Patterns without a match in a text are invisible there: the nodes depend on the other
patterns alone, with the names of their tokens and in their order. So tokens without a match may be
inserted, appended, left out or exchanged for each other, and names of grammars do not matter. -/
theorem tokenize_of_heard [Regex.LawfulSearcher] (g : Grammar) (text : String)
    (hwidth : Text.width text.toList < UInt32.size) :
    (∀ other : Grammar, g.heard text.toList = other.heard text.toList →
        g.TokenizesAs other text) ∧
      (∀ side anchor tokens other, '/' ∉ anchor.toList →
        (∀ token ∈ tokens, token.SilentIn text.toList) →
        g.insert side anchor tokens = .ok other → g.TokenizesAs other text) ∧
      (∀ tokens other, (∀ token ∈ tokens, token.SilentIn text.toList) →
        g.pushAll tokens = .ok other → g.TokenizesAs other text) ∧
      (∀ (σ : Type) (sieve : Sieve σ),
        (∀ token ∈ sieve.refused g.tokens, token.SilentIn text.toList) →
        g.TokenizesAs (g.filter sieve) text) ∧
      (∀ (σ : Type) (sieve : Sieve σ) name tokens,
        (∀ token ∈ sieve.refused g.tokens, token.SilentIn text.toList) →
        (∀ token ∈ tokens, token.SilentIn text.toList) →
        (∀ token ∈ tokens, ∀ t ∈ g.tokens, t.name = token.name → t.SilentIn text.toList) →
        g.TokenizesAs (g.derive name sieve tokens).grammar text) ∧
      (∀ name, g.TokenizesAs (g.derive name .all []).grammar text) ∧
      ∀ name, g.TokenizesAs { g with name := name } text := by
  refine ⟨fun other h => tokenizesAs_of_heard_eq hwidth h, ?_, ?_, ?_, ?_, ?_, ?_⟩
  · intro side anchor tokens other htop hsilent hinsert
    exact tokenizesAs_of_heard_eq hwidth (heard_of_insert htop hsilent hinsert)
  · intro tokens other hsilent hpush
    exact tokenizesAs_of_heard_eq hwidth (heard_of_pushAll hsilent hpush)
  · intro σ sieve hrefused
    refine tokenizesAs_of_heard_eq hwidth ?_
    rw [heard_eq_flatMap, heard_eq_flatMap]
    exact (flatMap_heard_sift sieve sieve.start hrefused).symm
  · intro σ sieve name tokens hrefused hsilent hover
    exact tokenizesAs_of_heard_eq hwidth (heard_derive g name sieve hrefused hsilent hover).symm
  · intro name
    refine tokenizesAs_of_heard_eq hwidth (heard_derive g name .all ?_ (by simp) (by simp)).symm
    simp [Sieve.refused, Sieve.refuse_all]
  · intro name
    exact tokenizesAs_of_heard_eq hwidth rfl

end Grammar

end Searching

namespace Grammar

/-- A token for digits changes nothing where there are none. -/
theorem tokenize_of_heard_dottedName :
    ∃ g digit other, dottedName = .ok g ∧ Token.compile "digit" [.plain "[0-9]+"] = .ok digit ∧
      g.insert .before "name" [digit] = .ok other ∧ digit.SilentIn "é new a.b ü".toList ∧
      g.TokenizesAs other "é new a.b ü" := by
  have hcheck : (dottedName.toOption.bind fun g =>
      (Token.compile "digit" [.plain "[0-9]+"]).toOption.bind fun digit =>
        (g.insert .before "name" [digit]).toOption.map fun _ =>
          decide (digit.SilentIn "é new a.b ü".toList)) = some true := by decide +kernel
  obtain ⟨g, hg, hcheck⟩ := Option.bind_eq_some_iff.mp hcheck
  obtain ⟨digit, hdigit, hcheck⟩ := Option.bind_eq_some_iff.mp hcheck
  obtain ⟨other, hother, hsilent⟩ := Option.map_eq_some_iff.mp hcheck
  have hinsert := eq_ok_of_toOption_eq_some hother
  have hsilent := of_decide_eq_true hsilent
  refine ⟨g, digit, other, eq_ok_of_toOption_eq_some hg, eq_ok_of_toOption_eq_some hdigit, hinsert,
    hsilent, ?_⟩
  exact (g.tokenize_of_heard "é new a.b ü" (by decide)).2.1 .before "name" [digit] other
    (by decide) (by simpa using hsilent) hinsert

end Grammar

end Highlight
