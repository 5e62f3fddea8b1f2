import Highlight.Grammar.Draft
import Highlight.Proofs.Compose.WellFormed

/-!
What can be made by the operations on patterns, tokens and grammars, in any order and any number.
All of it is well-formed (`Grammar.Composed.wellFormed`).
-/

namespace Highlight

mutual

inductive Pattern.Composed : Pattern → Prop
  | build {source : String} {options : Pattern.Options} {p : Pattern}
      (inside : ∀ g, options.inside = some g → Grammar.Composed g)
      (build_eq : Pattern.build source options = .ok p) : Pattern.Composed p
  | ofToken {t : Token} {p : Pattern} (token : Token.Composed t) (mem : p ∈ t.patterns) :
      Pattern.Composed p

inductive Token.Composed : Token → Prop
  | single (name : String) {p : Pattern} (pattern : Pattern.Composed p) :
      Token.Composed (Token.single name p)
  | build {name : String} {patterns : List Pattern} {t : Token}
      (patterns_composed : ∀ p ∈ patterns, Pattern.Composed p)
      (build_eq : Token.build name patterns = .ok t) : Token.Composed t
  | edit {t t' : Token} (token : Token.Composed t) (edit : Token.Edited t t') : Token.Composed t'
  | ofGrammar {g : Grammar} {t : Token} (grammar : Grammar.Composed g) (mem : t ∈ g.tokens) :
      Token.Composed t

/-- Changes to a token that leave its name. -/
inductive Token.Edited : Token → Token → Prop
  | push (t : Token) {p : Pattern} (pattern : Pattern.Composed p) : Token.Edited t (t.push p)
  | replacePatterns {t t' : Token} {patterns : List Pattern}
      (patterns_composed : ∀ p ∈ patterns, Pattern.Composed p)
      (replace_eq : t.replacePatterns patterns = .ok t') : Token.Edited t t'
  | swap (t : Token) (i j : Nat) : Token.Edited t (t.swap i j)

inductive Grammar.Composed : Grammar → Prop
  | empty (name : String) : Grammar.Composed (Grammar.empty name)
  | build {name : String} {tokens : List Token} {g : Grammar}
      (tokens_composed : ∀ t ∈ tokens, Token.Composed t)
      (build_eq : Grammar.build name tokens = .ok g) : Grammar.Composed g
  | derive {σ : Type} {base : Grammar} (name : String) (sieve : Sieve σ) {tokens : List Token}
      (base_composed : Grammar.Composed base)
      (tokens_composed : ∀ t ∈ tokens, Token.Composed t) :
      Grammar.Composed (base.derive name sieve tokens).grammar
  | filter {σ : Type} {g : Grammar} (grammar : Grammar.Composed g) (sieve : Sieve σ) :
      Grammar.Composed (g.filter sieve)
  | insert {g g' : Grammar} {side : Side} {anchor : String} {tokens : List Token}
      (grammar : Grammar.Composed g) (tokens_composed : ∀ t ∈ tokens, Token.Composed t)
      (insert_eq : g.insert side anchor tokens = .ok g') : Grammar.Composed g'
  | replacePatterns {g g' : Grammar} {path : String} {patterns : List Pattern}
      (grammar : Grammar.Composed g) (patterns_composed : ∀ p ∈ patterns, Pattern.Composed p)
      (replace_eq : g.replacePatterns path patterns = .ok g') : Grammar.Composed g'
  | editToken {g : Grammar} {path : String} {focus : Focus Token Grammar} {t : Token}
      (grammar : Grammar.Composed g) (focus_eq : g.focusToken? path = some focus)
      (edit : Token.Edited focus.value t) : Grammar.Composed (focus.plug t)
  | pushInside {g inner : Grammar} {path : String} {focus : Focus Grammar Grammar}
      {tokens : List Token} (grammar : Grammar.Composed g)
      (focus_eq : g.focusInside? path = some focus)
      (tokens_composed : ∀ t ∈ tokens, Token.Composed t)
      (push_eq : focus.value.pushAll tokens = .ok inner) : Grammar.Composed (focus.plug inner)
  | inside {p : Pattern} {g : Grammar} (pattern : Pattern.Composed p)
      (inside_eq : p.inside = some g) : Grammar.Composed g

end

mutual

theorem Pattern.Composed.wellFormed {p : Pattern} : p.Composed → p.WellFormed
  | .build hinside hbuild =>
      Pattern.wellFormed_of_build (fun g hg => (hinside g hg).wellFormed) hbuild
  | .ofToken htoken hmem => htoken.wellFormed.patterns p hmem

theorem Token.Composed.wellFormed {t : Token} : t.Composed → t.WellFormed
  | .single name hp => Token.wellFormed_single name hp.wellFormed
  | .build hpatterns hbuild =>
      (Token.wellFormed_of_build (fun p hp => (hpatterns p hp).wellFormed) hbuild).1
  | .edit htoken hedit => (hedit.named htoken.wellFormed).1
  | .ofGrammar hgrammar hmem => (Grammar.wellFormed_iff.mp hgrammar.wellFormed).2 t hmem

theorem Token.Edited.named {t t' : Token} (ht : t.WellFormed) : t.Edited t' → t'.Named t.name
  | .push _ hp => ⟨Token.wellFormed_push ht hp.wellFormed, Token.name_push _ _⟩
  | .replacePatterns hpatterns hreplace =>
      Token.wellFormed_of_build (fun p hp => (hpatterns p hp).wellFormed) hreplace
  | .swap _ i j => ⟨Token.wellFormed_swap ht i j, Token.name_swap _ i j⟩

theorem Grammar.Composed.wellFormed {g : Grammar} : g.Composed → g.WellFormed
  | .empty name => Grammar.wellFormed_empty name
  | .build htokens hbuild =>
      Grammar.wellFormed_of_build (fun t ht => (htokens t ht).wellFormed) hbuild
  | .derive name sieve hbase htokens =>
      Grammar.wellFormed_derive hbase.wellFormed name sieve fun t ht => (htokens t ht).wellFormed
  | .filter hgrammar sieve => Grammar.wellFormed_filter hgrammar.wellFormed sieve
  | .insert hgrammar htokens hinsert =>
      Grammar.wellFormed_of_insert hgrammar.wellFormed (fun t ht => (htokens t ht).wellFormed)
        hinsert
  | .replacePatterns hgrammar hpatterns hreplace =>
      Grammar.wellFormed_of_replacePatterns hgrammar.wellFormed
        (fun p hp => (hpatterns p hp).wellFormed) hreplace
  | .editToken hgrammar hfocus hedit => by
      have hfits := Grammar.fits_focusToken? hgrammar.wellFormed hfocus
      obtain ⟨hwell, hname⟩ := hedit.named hfits.value.1
      exact hfits.plug _ ⟨hwell, hname.trans hfits.value.2⟩
  | .pushInside hgrammar hfocus htokens hpush => by
      have hfits := Grammar.fits_focusInside? hgrammar.wellFormed hfocus
      exact hfits.plug _
        (Grammar.wellFormed_of_pushAll hfits.value (fun t ht => (htokens t ht).wellFormed) hpush)
  | .inside hpattern hinside => hpattern.wellFormed.inside g hinside

end

def Draft.insides (drafts : List Draft) : List Grammar :=
  drafts.filterMap (·.options.inside)

theorem Draft.yields_compileAll {drafts : List Draft} (h : ∀ g ∈ insides drafts, g.Composed) :
    Yields (fun patterns => ∀ p ∈ patterns, Pattern.Composed p) (compileAll drafts) := by
  induction drafts with
  | nil => exact .ok (by simp)
  | cons draft rest ih =>
      have hpattern : Yields Pattern.Composed draft.compile := by
        intro p hbuild
        refine .build ?_ hbuild
        intro g hg
        exact h g (by simp [insides, hg])
      have hrest : ∀ g ∈ insides rest, g.Composed := by
        intro g hg
        obtain ⟨other, hother, hinside⟩ := List.mem_filterMap.mp hg
        exact h g (List.mem_filterMap.mpr ⟨other, List.mem_cons_of_mem _ hother, hinside⟩)
      refine hpattern.bind fun pattern hpattern => ?_
      refine (ih hrest).bind fun patterns hpatterns => ?_
      exact .ok (List.forall_mem_cons.mpr ⟨hpattern, hpatterns⟩)

theorem Token.yields_compileAll (entries : List (String × List Draft))
    (h : ∀ g ∈ Draft.insides (entries.flatMap (·.2)), g.Composed) :
    Yields (fun tokens => ∀ t ∈ tokens, Token.Composed t) (compileAll entries) := by
  induction entries with
  | nil => exact .ok (by simp)
  | cons entry rest ih =>
      obtain ⟨name, drafts⟩ := entry
      rw [List.flatMap_cons, Draft.insides, List.filterMap_append, List.forall_mem_append] at h
      have htoken : Yields Token.Composed (Token.compile name drafts) :=
        (Draft.yields_compileAll h.1).bind fun _ hpatterns _ hbuild => .build hpatterns hbuild
      refine htoken.bind fun token htoken => ?_
      refine (ih h.2).bind fun tokens htokens => ?_
      exact .ok (List.forall_mem_cons.mpr ⟨htoken, htokens⟩)

theorem Grammar.yields_compile {name : String} {entries : List (String × List Draft)}
    (h : ∀ g ∈ Draft.insides (entries.flatMap (·.2)), g.Composed) :
    Yields Grammar.Composed (compile name entries) :=
  (Token.yields_compileAll entries h).bind fun _ htokens _ hbuild => .build htokens hbuild

end Highlight
