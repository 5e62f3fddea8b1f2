import Highlight.Proofs.Failure
import Highlight.Proofs.Grammar.Nesting

/-!
Well-formed grammars: at each depth token names differ, so that a name stands for one token, no
token is without patterns, and each pattern with context has a group for it. All that is built
from well-formed parts is well-formed.
-/

namespace Highlight

/-- A grammar that is as it should be, apart from the grammars inside it. -/
structure Grammar.Valid (g : Grammar) : Prop where
  distinct : g.tokenNames.Nodup
  /-- A token is found under its own name and no other. -/
  keyed : ∀ key token, g.find? key = some token ↔ token ∈ g.tokens ∧ token.name = key
  patterns_ne_nil : ∀ token ∈ g.tokens, token.patterns ≠ []
  context : ∀ token ∈ g.tokens, ∀ pattern ∈ token.patterns,
    pattern.lookbehind = true → 0 < pattern.regex.groupCount

def Grammar.WellFormed (g : Grammar) : Prop :=
  g.Throughout Grammar.Valid

structure Pattern.WellFormed (p : Pattern) : Prop where
  context : p.lookbehind = true → 0 < p.regex.groupCount
  inside : ∀ g, p.inside = some g → g.WellFormed

structure Token.WellFormed (t : Token) : Prop where
  patterns_ne_nil : t.patterns ≠ []
  patterns : ∀ p ∈ t.patterns, p.WellFormed

/-- Where names differ, a token is the first of its name. -/
theorem Token.find?_name_of_mem {tokens : List Token} {token : Token}
    (h : (tokens.map (·.name)).Nodup) (hmem : token ∈ tokens) :
    tokens.find? (·.name == token.name) = some token := by
  induction tokens with
  | nil => cases hmem
  | cons first rest ih =>
      obtain ⟨hfirst, hrest⟩ := List.nodup_cons.mp h
      rcases List.mem_cons.mp hmem with rfl | hmem
      · simp
      · have hne : first.name ≠ token.name := by
          intro heq
          exact hfirst (List.mem_map.mpr ⟨token, hmem, heq.symm⟩)
        rw [List.find?_cons_of_neg (by simpa using hne)]
        exact ih hrest hmem

namespace Grammar

theorem find?_eq_none_iff {g : Grammar} {name : String} :
    g.find? name = none ↔ name ∉ g.tokenNames := by
  simp [find?, tokenNames]

theorem name_of_find?_eq_some {g : Grammar} {name : String} {token : Token}
    (h : g.find? name = some token) : token.name = name := by
  simpa using List.find?_some h

theorem find?_eq_some_iff {g : Grammar} (h : g.tokenNames.Nodup) {key : String} {token : Token} :
    g.find? key = some token ↔ token ∈ g.tokens ∧ token.name = key := by
  constructor
  · intro hfind
    exact ⟨List.mem_of_find?_eq_some hfind, name_of_find?_eq_some hfind⟩
  · rintro ⟨hmem, rfl⟩
    exact Token.find?_name_of_mem h hmem

theorem wellFormed_iff {g : Grammar} :
    g.WellFormed ↔ g.tokenNames.Nodup ∧ ∀ token ∈ g.tokens, token.WellFormed := by
  rw [WellFormed, throughout_iff]
  constructor
  · rintro ⟨hvalid, hinside⟩
    refine ⟨hvalid.distinct, ?_⟩
    intro token htoken
    refine ⟨hvalid.patterns_ne_nil token htoken, ?_⟩
    intro pattern hpattern
    exact ⟨hvalid.context token htoken pattern hpattern,
      hinside token htoken pattern hpattern⟩
  · rintro ⟨hdistinct, htokens⟩
    constructor
    · constructor
      · exact hdistinct
      · intro key token
        exact find?_eq_some_iff hdistinct
      · intro token htoken
        exact (htokens token htoken).patterns_ne_nil
      · intro token htoken pattern hpattern
        exact ((htokens token htoken).patterns pattern hpattern).context
    · intro token htoken pattern hpattern inner hinside
      exact ((htokens token htoken).patterns pattern hpattern).inside inner hinside

end Grammar

theorem Pattern.wellFormed_of_build {source : String} {options : Pattern.Options} {p : Pattern}
    (hinside : ∀ g, options.inside = some g → g.WellFormed)
    (h : Pattern.build source options = .ok p) : p.WellFormed := by
  unfold Pattern.build at h
  split at h
  next => cases h
  next regex hcompile =>
    split at h
    next => cases h
    next hcontext =>
      cases h
      refine ⟨?_, hinside⟩
      intro hlookbehind
      simp only at hlookbehind
      simp only [hlookbehind, Bool.true_and, beq_iff_eq] at hcontext
      exact Nat.pos_of_ne_zero hcontext

namespace Token

theorem wellFormed_single (name : String) {p : Pattern} (h : p.WellFormed) :
    (single name p).WellFormed :=
  ⟨by simp [single], by simpa [single] using h⟩

theorem wellFormed_of_build {name : String} {patterns : List Pattern} {t : Token}
    (hpatterns : ∀ p ∈ patterns, p.WellFormed) (h : build name patterns = .ok t) :
    t.WellFormed ∧ t.name = name := by
  unfold build at h
  split at h
  next => cases h
  next hne =>
    cases h
    exact ⟨⟨by simpa using hne, hpatterns⟩, rfl⟩

theorem wellFormed_push {t : Token} {p : Pattern} (ht : t.WellFormed) (hp : p.WellFormed) :
    (t.push p).WellFormed := by
  refine ⟨by simp [push], ?_⟩
  intro q hq
  rcases List.mem_append.mp hq with hq | hq
  · exact ht.patterns q hq
  · exact List.mem_singleton.mp hq ▸ hp

theorem mem_patterns_of_mem_swap {t : Token} {i j : Nat} {p : Pattern}
    (h : p ∈ (t.swap i j).patterns) : p ∈ t.patterns := by
  unfold swap at h
  split at h
  next first second hi hj =>
    rcases List.mem_or_eq_of_mem_set h with hmem | rfl
    · rcases List.mem_or_eq_of_mem_set hmem with hmem | rfl
      · exact hmem
      · exact List.mem_of_getElem? hj
    · exact List.mem_of_getElem? hi
  next => exact h

theorem wellFormed_swap {t : Token} (h : t.WellFormed) (i j : Nat) : (t.swap i j).WellFormed := by
  refine ⟨?_, fun p hp => h.patterns p (mem_patterns_of_mem_swap hp)⟩
  unfold swap
  split
  next first second hi hj => simpa using h.patterns_ne_nil
  next => exact h.patterns_ne_nil

theorem name_ite_name_eq (t token : Token) :
    (if t.name == token.name then token else t).name = t.name := by
  split
  next heq => exact (beq_iff_eq.mp heq).symm
  next => rfl

@[simp] theorem name_push (t : Token) (p : Pattern) : (t.push p).name = t.name := rfl

@[simp] theorem name_swap (t : Token) (i j : Nat) : (t.swap i j).name = t.name := by
  unfold swap
  split <;> rfl

end Token

namespace Grammar

theorem wellFormed_empty (name : String) : (empty name).WellFormed :=
  wellFormed_iff.mpr ⟨List.nodup_nil, by simp [empty]⟩

theorem contains_iff {g : Grammar} {name : String} :
    g.contains name = true ↔ name ∈ g.tokenNames := by
  simp [contains, tokenNames]

/-- Tokens under new names may be put anywhere. -/
theorem wellFormed_of_perm {g g' : Grammar} {tokens : List Token} (hg : g.WellFormed)
    (hperm : g'.tokens.Perm (tokens ++ g.tokens)) (htokens : ∀ token ∈ tokens, token.WellFormed)
    (hdistinct : (tokens.map (·.name)).Nodup)
    (hnew : ∀ token ∈ tokens, token.name ∉ g.tokenNames) : g'.WellFormed := by
  obtain ⟨hnames, hall⟩ := wellFormed_iff.mp hg
  apply wellFormed_iff.mpr
  constructor
  · rw [tokenNames, (hperm.map _).nodup_iff, List.map_append, List.nodup_append]
    refine ⟨hdistinct, hnames, ?_⟩
    rintro name hname _ hother rfl
    obtain ⟨token, htoken, rfl⟩ := List.mem_map.mp hname
    exact hnew token htoken hother
  · intro token hmem
    rcases List.mem_append.mp (hperm.mem_iff.mp hmem) with hmem | hmem
    · exact htokens token hmem
    · exact hall token hmem

theorem wellFormed_of_push {g g' : Grammar} {token : Token} (hg : g.WellFormed)
    (htoken : token.WellFormed) (h : g.push token = .ok g') : g'.WellFormed := by
  unfold push at h
  split at h
  next => cases h
  next hnew =>
    cases h
    have hperm : (g.tokens ++ [token]).Perm ([token] ++ g.tokens) := List.perm_append_comm
    apply wellFormed_of_perm hg hperm
    · simpa using htoken
    · simp
    · simpa [contains_iff] using hnew

theorem wellFormed_of_pushAll {g g' : Grammar} {tokens : List Token} (hg : g.WellFormed)
    (htokens : ∀ token ∈ tokens, token.WellFormed) (h : g.pushAll tokens = .ok g') :
    g'.WellFormed := by
  induction tokens generalizing g with
  | nil =>
      cases h
      exact hg
  | cons token rest ih =>
      obtain ⟨htoken, hrest⟩ := List.forall_mem_cons.mp htokens
      obtain ⟨next, hpush, hpushAll⟩ := exists_of_bind_eq_ok h
      exact ih (wellFormed_of_push hg htoken hpush) hrest hpushAll

theorem wellFormed_of_build {name : String} {tokens : List Token} {g : Grammar}
    (htokens : ∀ token ∈ tokens, token.WellFormed) (h : build name tokens = .ok g) :
    g.WellFormed :=
  wellFormed_of_pushAll (wellFormed_empty name) htokens h

theorem tokenNames_upsert (g : Grammar) (token : Token) :
    (g.upsert token).tokenNames =
      if token.name ∈ g.tokenNames then g.tokenNames else g.tokenNames ++ [token.name] := by
  simp only [upsert, contains_iff]
  split
  next =>
    rw [tokenNames, List.map_map]
    exact List.map_congr_left fun t _ => Token.name_ite_name_eq t token
  next => simp [tokenNames]

theorem mem_tokens_upsert {g : Grammar} {token t : Token} (h : t ∈ (g.upsert token).tokens) :
    t = token ∨ t ∈ g.tokens := by
  unfold upsert at h
  split at h
  next =>
    obtain ⟨t', ht', rfl⟩ := List.mem_map.mp h
    split
    · exact .inl rfl
    · exact .inr ht'
  next =>
    simp only [List.mem_append, List.mem_singleton] at h
    exact h.symm

/-- A token takes the place of the one of its name, so that no name comes twice. -/
theorem wellFormed_upsert {g : Grammar} {token : Token} (hg : g.WellFormed)
    (htoken : token.WellFormed) : (g.upsert token).WellFormed := by
  obtain ⟨hnames, hall⟩ := wellFormed_iff.mp hg
  apply wellFormed_iff.mpr
  constructor
  · rw [tokenNames_upsert]
    split
    next => exact hnames
    next hnew =>
      refine List.nodup_append.mpr ⟨hnames, by simp, ?_⟩
      rintro name hname _ hother rfl
      exact hnew (List.mem_singleton.mp hother ▸ hname)
  · intro other hmem
    rcases mem_tokens_upsert hmem with rfl | hmem
    · exact htoken
    · exact hall other hmem

theorem distinct_of_firstTaken?_eq_none {taken : List String} {tokens : List Token}
    (h : firstTaken? taken tokens = none) :
    (tokens.map (·.name)).Nodup ∧ ∀ token ∈ tokens, token.name ∉ taken := by
  induction tokens generalizing taken with
  | nil => simp
  | cons token rest ih =>
      unfold firstTaken? at h
      split at h
      next => cases h
      next hnew =>
        obtain ⟨hrest, htaken⟩ := ih h
        constructor
        · refine List.nodup_cons.mpr ⟨?_, hrest⟩
          intro hmem
          obtain ⟨other, hother, hname⟩ := List.mem_map.mp hmem
          exact htaken other hother (by simp [hname])
        · intro other hmem
          rcases List.mem_cons.mp hmem with rfl | hmem
          · simpa using hnew
          · intro hmem'
            exact htaken other hmem (List.mem_cons_of_mem _ hmem')

theorem wellFormed_of_splice {g g' : Grammar} {index : Nat} {tokens : List Token}
    (hg : g.WellFormed) (htokens : ∀ token ∈ tokens, token.WellFormed)
    (h : g.splice index tokens = .ok g') : g'.WellFormed := by
  unfold splice at h
  split at h
  next => cases h
  next hnone =>
    cases h
    obtain ⟨hdistinct, hnew⟩ := distinct_of_firstTaken?_eq_none hnone
    refine wellFormed_of_perm hg ?_ htokens hdistinct hnew
    have hmove : (g.tokens.take index ++ tokens ++ g.tokens.drop index).Perm
        (tokens ++ g.tokens.take index ++ g.tokens.drop index) :=
      List.perm_append_comm.append_right _
    rwa [List.append_assoc tokens, List.take_append_drop] at hmove

/-- Choosing among the tokens leaves a grammar well-formed. -/
theorem wellFormed_of_sublist {g g' : Grammar} (hg : g.WellFormed)
    (h : g'.tokens.Sublist g.tokens) : g'.WellFormed := by
  obtain ⟨hnames, hall⟩ := wellFormed_iff.mp hg
  exact wellFormed_iff.mpr ⟨hnames.sublist (h.map _), fun token hmem => hall token (h.subset hmem)⟩

end Grammar

end Highlight
