import Highlight.Proofs.Scan.Origin
import Mathlib.Data.List.Zip

/-!
Which pattern emits which node. The rules of a grammar stand for its entries, the patterns with
their tokens, and each matched node of a tokenization is emitted by one of them
(`Grammar.exists_emits`).
-/

namespace Highlight

/-- Some search of a text finds a match that starts at an offset and leaves text for a token. -/
def Pattern.EmitsAt [Regex.Searcher] (p : Pattern) (text : List Char) (offset : Nat) : Prop :=
  ∃ (c : Cursor) (hit : Hit), c.text = text ∧ p.hit? c = some hit ∧ hit.start = offset ∧
    hit.emits = true

theorem exists_mem_zip_left_of_forall₂ {α β : Type} {R : α → β → Prop} {xs : List α} {ys : List β}
    (h : List.Forall₂ R xs ys) {x : α} (hx : x ∈ xs) : ∃ y, (x, y) ∈ xs.zip ys := by
  obtain ⟨y, hy⟩ := exists_mem_zip_of_forall₂ h.flip hx
  refine ⟨y, ?_⟩
  rw [← List.zip_swap]
  exact List.mem_map.mpr ⟨_, hy, rfl⟩

namespace Grammar

/-- The patterns of a grammar with their tokens, in order of precedence. -/
def entries (g : Grammar) : List (Token × Pattern) :=
  g.tokens.flatMap fun token => token.patterns.map fun pattern => (token, pattern)

theorem mem_entries_iff {g : Grammar} {token : Token} {pattern : Pattern} :
    (token, pattern) ∈ g.entries ↔ token ∈ g.tokens ∧ pattern ∈ token.patterns := by
  simp [entries]

theorem rules_eq_map_entries [Regex.Searcher] (g : Grammar) :
    g.rules = g.entries.map fun entry => entry.2.rule entry.1.name := by
  rw [rules_eq_flatMap, entries, List.map_flatMap]
  simp only [List.map_map, Function.comp_def]

/-- Tokenizing a text, a grammar takes a hit of one of its patterns, and `matched` is the node
that stands for it. -/
def Emits [Regex.Searcher] (g : Grammar) (text : String) (entry : Token × Pattern) (hit : Hit)
    (matched : Matched) : Prop :=
  entry ∈ g.entries ∧ ∃ steps nodes, Scan.steps g.rules text.toList = .ok steps ∧
    g.tokenize text = .ok nodes ∧
    ((entry.2.rule entry.1.name, hit), matched) ∈
      (Step.takes steps).zip (nodes.filterMap Node.matched?)

variable [Regex.Searcher] [Regex.LawfulSearcher]

theorem exists_emits {g : Grammar} {text : String} {nodes : List Node} {matched : Matched}
    (hwidth : Text.width text.toList < UInt32.size) (hnodes : g.tokenize text = .ok nodes)
    (hmem : .matched matched ∈ nodes) : ∃ entry hit, g.Emits text entry hit matched := by
  obtain ⟨steps, token, pattern, hit, hsteps, htoken, hpattern, hzip⟩ :=
    exists_take_of_mem (by rwa [Nat.zero_add]) hnodes hmem
  exact ⟨(token, pattern), hit, mem_entries_iff.mpr ⟨htoken, hpattern⟩, steps, nodes, hsteps,
    hnodes, hzip⟩

/-- Each hit that the scan takes is emitted. -/
theorem exists_emits_of_takes {g : Grammar} {text : String} {steps : List Step} {rule : Rule}
    {hit : Hit} (hwidth : Text.width text.toList < UInt32.size)
    (hsteps : Scan.steps g.rules text.toList = .ok steps) (hmem : (rule, hit) ∈ Step.takes steps) :
    ∃ entry matched, g.Emits text entry hit matched ∧ entry.2.rule entry.1.name = rule := by
  obtain ⟨nodes, hnodes, -⟩ := g.exists_tokenize hwidth
  obtain ⟨hrules, hall⟩ := standsFor_of_steps (by rwa [Nat.zero_add]) hsteps hnodes
  obtain ⟨matched, hzip⟩ := exists_mem_zip_left_of_forall₂ hall hmem
  obtain ⟨token, htoken, pattern, hpattern, hrule⟩ := mem_rules_iff.mp (hrules _ hmem)
  cases hrule
  exact ⟨(token, pattern), matched, ⟨mem_entries_iff.mpr ⟨htoken, hpattern⟩, steps, nodes, hsteps,
    hnodes, hzip⟩, rfl⟩

theorem Emits.standsFor {g : Grammar} {text : String} {entry : Token × Pattern} {hit : Hit}
    {matched : Matched} (hwidth : Text.width text.toList < UInt32.size)
    (h : g.Emits text entry hit matched) :
    matched.StandsFor 0 (entry.2.rule entry.1.name, hit) := by
  obtain ⟨-, steps, nodes, hsteps, hnodes, hzip⟩ := h
  exact List.forall₂_zip (standsFor_of_steps (by rwa [Nat.zero_add]) hsteps hnodes).2 hzip

end Grammar

end Highlight
