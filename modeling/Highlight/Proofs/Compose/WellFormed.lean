import Highlight.Compose.Derive
import Highlight.Compose.Insert
import Highlight.Proofs.Grammar.WellFormed

/-!
Composing keeps grammars well-formed, however deep in them a change is made. A focus leads into a
part, and a part of the same kind may be put back (`Focus.Fits`).
-/

namespace Highlight

/-- The part is as `P` says, and the whole is as `Q` says with any such part. -/
structure Focus.Fits {α ω : Type} (P : α → Prop) (Q : ω → Prop) (focus : Focus α ω) : Prop where
  value : P focus.value
  plug : ∀ a, P a → Q (focus.plug a)

theorem Focus.Fits.within {α β ω : Type} {P : α → Prop} {Q : β → Prop} {R : ω → Prop}
    {outer : Focus β ω} {inner : Focus α β} (houter : outer.Fits Q R) (hinner : inner.Fits P Q) :
    (outer.within inner).Fits P R :=
  ⟨hinner.value, fun a ha => houter.plug _ (hinner.plug a ha)⟩

namespace Spot

variable {α : Type} {p : α → Bool} {xs : List α} {spot : Spot α}

theorem apply_value_of_find? (h : find? p xs = some spot) : p spot.value = true := by
  have hfind : xs.find? p = some spot.value := by
    rw [← map_value_find?, h]
    rfl
  exact List.find?_some hfind

theorem mem_of_mem_fill {a b : α} (hfill : spot.fill spot.value = xs) (h : b ∈ spot.fill a) :
    b ∈ xs ∨ b = a := by
  subst hfill
  simp only [fill, List.mem_append, List.mem_cons] at h ⊢
  rcases h with h | rfl | h
  · exact .inl (.inl h)
  · exact .inr rfl
  · exact .inl (.inr (.inr h))

theorem value_mem (hfill : spot.fill spot.value = xs) : spot.value ∈ xs := by
  subst hfill
  simp [fill]

end Spot

namespace Token

def Named (name : String) (t : Token) : Prop :=
  t.WellFormed ∧ t.name = name

theorem fits_focusInside? {t : Token} {focus : Focus Grammar Token} (ht : t.WellFormed)
    (h : t.focusInside? = some focus) : focus.Fits Grammar.WellFormed (Named t.name) := by
  obtain ⟨spot, hspot, h⟩ := Option.bind_eq_some_iff.mp h
  obtain ⟨inner, hinner, heq⟩ := Option.bind_eq_some_iff.mp h
  cases heq
  have hfill := Spot.fill_value_of_find? hspot
  have hvalue := ht.patterns spot.value (Spot.value_mem hfill)
  refine ⟨hvalue.inside inner hinner, ?_⟩
  intro g hg
  refine ⟨⟨by simp [Spot.fill], ?_⟩, rfl⟩
  intro p hp
  rcases Spot.mem_of_mem_fill hfill hp with hp | rfl
  · exact ht.patterns p hp
  · refine ⟨hvalue.context, ?_⟩
    rintro _ ⟨⟩
    exact hg

end Token

namespace Grammar

theorem fits_focus? {g : Grammar} {name : String} {focus : Focus Token Grammar}
    (hg : g.WellFormed) (h : g.focus? name = some focus) :
    focus.Fits (Token.Named name) Grammar.WellFormed := by
  obtain ⟨spot, hspot, heq⟩ := Option.bind_eq_some_iff.mp h
  cases heq
  obtain ⟨hnames, hall⟩ := wellFormed_iff.mp hg
  have hfill := Spot.fill_value_of_find? hspot
  have hname : spot.value.name = name := by simpa using Spot.apply_value_of_find? hspot
  refine ⟨⟨hall _ (Spot.value_mem hfill), hname⟩, ?_⟩
  rintro token ⟨htoken, hsame⟩
  apply wellFormed_iff.mpr
  constructor
  · have hmap : (spot.fill token).map (·.name) = g.tokenNames := by
      rw [tokenNames, ← hfill]
      simp [Spot.fill, hsame, hname]
    rw [tokenNames, hmap]
    exact hnames
  · intro other hmem
    rcases Spot.mem_of_mem_fill hfill hmem with hmem | rfl
    · exact hall other hmem
    · exact htoken

/-- Each name of a path leads from a well-formed grammar into another one. -/
theorem fits_focusAlong? {g : Grammar} {names : List String} {focus : Focus Grammar Grammar}
    (hg : g.WellFormed) (h : g.focusAlong? names = some focus) :
    focus.Fits Grammar.WellFormed Grammar.WellFormed := by
  induction names generalizing g focus with
  | nil =>
      cases h
      exact ⟨hg, fun _ hinner => hinner⟩
  | cons name rest ih =>
      obtain ⟨token, htoken, h⟩ := Option.bind_eq_some_iff.mp h
      obtain ⟨inside, hinside, h⟩ := Option.bind_eq_some_iff.mp h
      obtain ⟨inner, hinner, heq⟩ := Option.bind_eq_some_iff.mp h
      cases heq
      have hfits := fits_focus? hg htoken
      obtain ⟨hwell, hname⟩ := hfits.value
      have hfits' := Token.fits_focusInside? hwell hinside
      rw [hname] at hfits'
      exact hfits.within (hfits'.within (ih hfits'.value hinner))

theorem fits_focusInside? {g : Grammar} {path : String} {focus : Focus Grammar Grammar}
    (hg : g.WellFormed) (h : g.focusInside? path = some focus) :
    focus.Fits Grammar.WellFormed Grammar.WellFormed :=
  fits_focusAlong? hg h

theorem fits_focusToken? {g : Grammar} {path : String} {focus : Focus Token Grammar}
    (hg : g.WellFormed) (h : g.focusToken? path = some focus) :
    focus.Fits (Token.Named (Path.last path)) Grammar.WellFormed := by
  obtain ⟨owner, howner, h⟩ := Option.bind_eq_some_iff.mp h
  obtain ⟨token, htoken, heq⟩ := Option.bind_eq_some_iff.mp h
  cases heq
  have hfits := fits_focusAlong? hg howner
  exact hfits.within (fits_focus? hfits.value htoken)

theorem exists_of_insert_eq_ok {g g' : Grammar} {side : Side} {anchor : String}
    {tokens : List Token} (h : g.insert side anchor tokens = .ok g') :
    ∃ owner index spliced, g.focusAlong? (Path.owners anchor) = some owner ∧
      owner.value.position? (Path.last anchor) = some index ∧
      owner.value.splice (side.shift index) tokens = .ok spliced ∧ owner.plug spliced = g' := by
  unfold insert at h
  simp only at h
  split at h
  next => cases h
  next owner howner =>
    split at h
    next => cases h
    next index hindex =>
      obtain ⟨spliced, hsplice, hplug⟩ := exists_of_map_eq_ok h
      exact ⟨owner, index, spliced, howner, hindex, hsplice, hplug⟩

theorem exists_of_replacePatterns_eq_ok {g g' : Grammar} {path : String} {patterns : List Pattern}
    (h : g.replacePatterns path patterns = .ok g') :
    ∃ focus token, g.focusToken? path = some focus ∧
      focus.value.replacePatterns patterns = .ok token ∧ focus.plug token = g' := by
  unfold replacePatterns at h
  split at h
  next => cases h
  next focus hfocus =>
    obtain ⟨token, htoken, hplug⟩ := exists_of_map_eq_ok h
    exact ⟨focus, token, hfocus, htoken, hplug⟩

theorem wellFormed_of_insert {g g' : Grammar} {side : Side} {anchor : String}
    {tokens : List Token} (hg : g.WellFormed) (htokens : ∀ token ∈ tokens, token.WellFormed)
    (h : g.insert side anchor tokens = .ok g') : g'.WellFormed := by
  obtain ⟨owner, index, spliced, howner, -, hsplice, rfl⟩ := exists_of_insert_eq_ok h
  have hfits := fits_focusAlong? hg howner
  exact hfits.plug spliced (wellFormed_of_splice hfits.value htokens hsplice)

theorem wellFormed_of_replacePatterns {g g' : Grammar} {path : String} {patterns : List Pattern}
    (hg : g.WellFormed) (hpatterns : ∀ p ∈ patterns, p.WellFormed)
    (h : g.replacePatterns path patterns = .ok g') : g'.WellFormed := by
  obtain ⟨focus, token, hfocus, htoken, rfl⟩ := exists_of_replacePatterns_eq_ok h
  have hfits := fits_focusToken? hg hfocus
  obtain ⟨hwell, hname⟩ := Token.wellFormed_of_build hpatterns htoken
  exact hfits.plug token ⟨hwell, hname.trans hfits.value.2⟩

end Grammar

namespace Sieve

variable {σ : Type}

theorem sift_sublist (sieve : Sieve σ) (s : σ) (tokens : List Token) :
    (sieve.sift s tokens).Sublist tokens := by
  induction tokens generalizing s with
  | nil => exact .slnil
  | cons token rest ih =>
      unfold sift
      split
      next s' _ => exact (ih s').cons_cons token
      next s' _ => exact (ih s').cons token

theorem apply_sublist (sieve : Sieve σ) (tokens : List Token) :
    (sieve.apply tokens).Sublist tokens :=
  sieve.sift_sublist sieve.start tokens

end Sieve

@[simp] theorem Derivation.grammar_add (d : Derivation) (token : Token) :
    (d.add token).grammar = d.grammar.upsert token := by
  unfold add
  split <;> rfl

namespace Grammar

variable {σ : Type}

theorem wellFormed_filter {g : Grammar} (hg : g.WellFormed) (sieve : Sieve σ) :
    (g.filter sieve).WellFormed :=
  wellFormed_of_sublist hg (sieve.apply_sublist g.tokens)

theorem wellFormed_derive {base : Grammar} (hbase : base.WellFormed) (name : String)
    (sieve : Sieve σ) {tokens : List Token} (htokens : ∀ token ∈ tokens, token.WellFormed) :
    (base.derive name sieve tokens).grammar.WellFormed := by
  have hstart : (Derivation.start base name sieve).grammar.WellFormed :=
    wellFormed_of_sublist hbase (sieve.apply_sublist base.tokens)
  unfold derive
  generalize Derivation.start base name sieve = d at hstart
  induction tokens generalizing d with
  | nil => exact hstart
  | cons token rest ih =>
      obtain ⟨htoken, hrest⟩ := List.forall_mem_cons.mp htokens
      apply ih hrest
      rw [Derivation.grammar_add]
      exact wellFormed_upsert hstart htoken

end Grammar

end Highlight
