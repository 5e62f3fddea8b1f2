import Highlight.Proofs.Compose.Lookup
import Highlight.Proofs.Compose.WellFormed
import Highlight.Registry.Run
import Mathlib.Data.List.Induction
import Mathlib.Data.List.Nodup

/-!
What derived grammars are made of. The tokens that were chosen come first, in the places that they
had, and those of new names after them; under each name it is the token added last that counts
(`Grammar.derive_overrides_appends`).
-/

namespace Highlight

namespace Sieve

variable {σ : Type}

/-- What a sieve says of each of some tokens. It is asked once for each, in their order. -/
def answers (sieve : Sieve σ) (s : σ) : List Token → List Bool
  | [] => []
  | token :: rest =>
      let (answer, s) := sieve.keeps token s
      answer :: sieve.answers s rest

/-- The tokens of which a sieve says that they are to be kept. -/
def chosen (sieve : Sieve σ) (tokens : List Token) : List Token :=
  ((tokens.zip (sieve.answers sieve.start tokens)).filter (·.2)).map (·.1)

/-- Every other token is chosen, beginning with the first. -/
def everyOther : Sieve Bool :=
  ⟨true, fun _ keep => (keep, !keep)⟩

theorem length_answers (sieve : Sieve σ) (s : σ) (tokens : List Token) :
    (sieve.answers s tokens).length = tokens.length := by
  induction tokens generalizing s with
  | nil => rfl
  | cons token rest ih => simp [answers, ih]

theorem sift_eq (sieve : Sieve σ) (s : σ) (tokens : List Token) :
    sieve.sift s tokens = ((tokens.zip (sieve.answers s tokens)).filter (·.2)).map (·.1) := by
  induction tokens generalizing s with
  | nil => rfl
  | cons token rest ih =>
      rw [sift, answers]
      rcases hkeeps : sieve.keeps token s with ⟨answer, s'⟩
      cases answer <;> simp [ih]

theorem apply_eq (sieve : Sieve σ) (tokens : List Token) :
    sieve.apply tokens = sieve.chosen tokens :=
  sieve.sift_eq sieve.start tokens

theorem chosen_ofPred (p : Token → Bool) (tokens : List Token) :
    (ofPred p).chosen tokens = tokens.filter p := by
  rw [← apply_eq]
  show (ofPred p).sift () tokens = _
  induction tokens with
  | nil => rfl
  | cons token rest ih =>
      rw [sift, List.filter_cons]
      cases hkeeps : p token <;> simp [ofPred, hkeeps, ← ih]

theorem not_mem_chosen {sieve : Sieve σ} {tokens : List Token} {token : Token}
    (hnodup : (tokens.map (·.name)).Nodup)
    (h : (token, false) ∈ tokens.zip (sieve.answers sieve.start tokens)) :
    token.name ∉ (sieve.chosen tokens).map (·.name) := by
  intro hmem
  obtain ⟨other, hother, hname⟩ := List.mem_map.mp hmem
  obtain ⟨⟨_, answer⟩, hkept, rfl⟩ := List.mem_map.mp hother
  obtain ⟨hkept, hanswer⟩ := List.mem_filter.mp hkept
  have hzip : ((tokens.zip (sieve.answers sieve.start tokens)).map (·.1.name)).Nodup := by
    have hlength := sieve.length_answers sieve.start tokens
    rwa [← List.map_fst_zip (Nat.le_of_eq hlength.symm), List.map_map] at hnodup
  have heq := List.inj_on_of_nodup_map hzip h hkept hname.symm
  rw [← heq] at hanswer
  cases hanswer

end Sieve

namespace Token

/-- The last of some tokens that has a name. -/
def lastNamed? (tokens : List Token) (name : String) : Option Token :=
  tokens.findRev? (·.name == name)

/-- The names of some tokens that are not taken, in the order in which they first come. -/
def newNames (taken : List String) (tokens : List Token) : List String :=
  ((tokens.map (·.name)).filter fun name => !taken.contains name).eraseDups

theorem lastNamed?_concat (tokens : List Token) (token : Token) (name : String) :
    lastNamed? (tokens ++ [token]) name =
      if token.name = name then some token else lastNamed? tokens name := by
  rw [lastNamed?, lastNamed?, List.findRev?_eq_find?_reverse, List.findRev?_eq_find?_reverse,
    List.reverse_concat]
  by_cases h : token.name = name
  · simp [h]
  · rw [List.find?_cons_of_neg (by simpa using h), if_neg h]

theorem lastNamed?_eq_none {tokens : List Token} {name : String}
    (h : name ∉ tokens.map (·.name)) : lastNamed? tokens name = none := by
  rw [lastNamed?, List.findRev?_eq_find?_reverse, List.find?_eq_none]
  intro token htoken
  simpa using fun heq : token.name = name =>
    h (heq ▸ List.mem_map_of_mem (List.mem_reverse.mp htoken))

theorem mem_newNames {taken : List String} {tokens : List Token} {name : String} :
    name ∈ newNames taken tokens ↔ name ∈ tokens.map (·.name) ∧ name ∉ taken := by
  simp [newNames]

theorem newNames_concat (taken : List String) (tokens : List Token) (token : Token) :
    newNames taken (tokens ++ [token]) =
      if token.name ∈ taken ++ newNames taken tokens then newNames taken tokens
      else newNames taken tokens ++ [token.name] := by
  rw [newNames, List.map_append, List.filter_append, List.eraseDups_append, ← newNames]
  by_cases htaken : token.name ∈ taken
  · simp [htaken, List.removeAll]
  · by_cases hmem : token.name ∈ tokens.map (·.name)
    · have hnew : token.name ∈ newNames taken tokens := mem_newNames.mpr ⟨hmem, htaken⟩
      rw [if_pos (List.mem_append_right taken hnew)]
      simp_all [List.removeAll]
    · have hnew : token.name ∉ newNames taken tokens := fun h => hmem (mem_newNames.mp h).1
      rw [if_neg (by simp [htaken, hnew])]
      simp_all [List.removeAll, List.eraseDups_cons]

end Token

namespace Grammar

theorem find?_upsert (g : Grammar) (token : Token) (name : String) :
    (g.upsert token).find? name = if token.name = name then some token else g.find? name := by
  simp only [upsert, contains_iff]
  split
  next hmem =>
    have hnames : (·.name == name) ∘ (fun t : Token => if t.name == token.name then token else t) =
        (·.name == name) := funext fun t => by simp only [Function.comp, Token.name_ite_name_eq]
    rw [find?, List.find?_map, hnames, ← find?]
    cases hfind : g.find? name with
    | none =>
        have hne : token.name ≠ name := fun heq => find?_eq_none_iff.mp hfind (heq ▸ hmem)
        simp [hne]
    | some t =>
        have hname := name_of_find?_eq_some hfind
        by_cases heq : token.name = name
        · simp [hname, heq]
        · simp [hname, heq, Ne.symm heq]
  next hnew =>
    rw [find?, List.find?_append, List.find?_singleton, ← find?]
    by_cases heq : token.name = name
    · have hnone : g.find? name = none := find?_eq_none_iff.mpr (heq ▸ hnew)
      simp [hnone, heq]
    · simp [heq]

theorem name_upsert (g : Grammar) (token : Token) : (g.upsert token).name = g.name := by
  unfold upsert
  split <;> rfl

theorem parent_upsert (g : Grammar) (token : Token) : (g.upsert token).parent = g.parent := by
  unfold upsert
  split <;> rfl

theorem size_upsert (g : Grammar) (token : Token) :
    (g.upsert token).size = if g.contains token.name then g.size else g.size + 1 := by
  unfold upsert size
  split <;> simp

end Grammar

/-- What a derived grammar holds, and what is counted on the way: of `base`, the tokens `kept`
remain, and then `added` are added. -/
structure Derivation.Comprises (base : Grammar) (name : String) (kept added : List Token)
    (d : Derivation) : Prop where
  name : d.grammar.name = name
  parent : d.grammar.parent = some base.name
  names : d.grammar.tokenNames =
    kept.map (·.name) ++ Token.newNames (kept.map (·.name)) added
  found : ∀ other, d.grammar.find? other =
    (Token.lastNamed? added other).or (kept.find? (·.name == other))
  dropped : d.dropped + kept.length = base.size
  counted : d.overridden + d.appended = added.length
  size : d.grammar.size = kept.length + d.appended

namespace Derivation

theorem comprises_start {σ : Type} (base : Grammar) (name : String) (sieve : Sieve σ) :
    (start base name sieve).Comprises base name (sieve.chosen base.tokens) [] := by
  rw [← sieve.apply_eq]
  constructor
  · rfl
  · rfl
  · simp [start, Grammar.tokenNames, Token.newNames]
  · intro other
    rfl
  · exact Nat.sub_add_cancel (sieve.apply_sublist base.tokens).length_le
  · rfl
  · rfl

/-- The step of a derivation: one token is added. -/
theorem comprises_add {base : Grammar} {name : String} {kept added : List Token} {d : Derivation}
    (h : d.Comprises base name kept added) (token : Token) :
    (d.add token).Comprises base name kept (added ++ [token]) := by
  constructor
  · rw [grammar_add, Grammar.name_upsert, h.name]
  · rw [grammar_add, Grammar.parent_upsert, h.parent]
  · rw [grammar_add, Grammar.tokenNames_upsert, h.names, Token.newNames_concat]
    split
    · rfl
    · rw [List.append_assoc]
  · intro other
    rw [grammar_add, Grammar.find?_upsert, h.found, Token.lastNamed?_concat]
    split
    · rfl
    · rfl
  · have hdropped := h.dropped
    unfold add
    split <;> exact hdropped
  · have hcounted := h.counted
    unfold add
    split
    · simp only [List.length_append, List.length_singleton]
      omega
    · simp only [List.length_append, List.length_singleton]
      omega
  · have hsize := h.size
    rw [grammar_add, Grammar.size_upsert]
    unfold add
    split
    · exact hsize
    · rw [hsize, Nat.add_assoc]

theorem comprises_derive {σ : Type} (base : Grammar) (name : String) (sieve : Sieve σ)
    (tokens : List Token) :
    (base.derive name sieve tokens).Comprises base name (sieve.chosen base.tokens) tokens := by
  unfold Grammar.derive
  induction tokens using List.reverseRecOn with
  | nil => exact comprises_start base name sieve
  | append_singleton tokens token ih =>
      rw [List.foldl_concat]
      exact comprises_add ih token

/-- A token whose name was not kept is behind all that were. -/
theorem exists_position?_eq {base : Grammar} {name : String} {kept added : List Token}
    {d : Derivation} (h : d.Comprises base name kept added) {other : String}
    (hmem : other ∈ added.map (·.name)) (hkept : other ∉ kept.map (·.name)) :
    ∃ index, d.grammar.position? other = some index ∧ kept.length ≤ index := by
  have hnames : d.grammar.position? other = d.grammar.tokenNames.findIdx? (· == other) := by
    rw [Grammar.tokenNames, List.findIdx?_map]
    rfl
  have hnone : (kept.map (·.name)).findIdx? (· == other) = none := by
    rw [List.findIdx?_eq_none_iff]
    intro name hname
    simpa using fun heq : name = other => hkept (heq ▸ hname)
  obtain ⟨index, hindex⟩ : ∃ index,
      (Token.newNames (kept.map (·.name)) added).findIdx? (· == other) = some index := by
    rw [← Option.isSome_iff_exists, List.findIdx?_isSome, List.any_eq_true]
    exact ⟨other, Token.mem_newNames.mpr ⟨hmem, hkept⟩, by simp⟩
  refine ⟨index + kept.length, ?_, Nat.le_add_left kept.length index⟩
  rw [hnames, h.names, List.findIdx?_append, hnone, hindex]
  simp

end Derivation

namespace Grammar

/-- To derive a grammar is to keep what the sieve chooses, as filtering does, and then to override
tokens where they are and append those of new names. So a token that was dropped and is added again
comes behind all that were kept. The counts that are logged are those of what was done. -/
theorem derive_overrides_appends {σ : Type} (base : Grammar) (name : String) (sieve : Sieve σ)
    (tokens : List Token) :
    ∃ (kept : List Token) (d : Derivation), kept = sieve.chosen base.tokens ∧
      d.Comprises base name kept tokens ∧
      (∀ r : Registry, r.run (Build.derive base name sieve tokens).run =
        some (.ok d.grammar,
          r.emit (.derived base.name name d.dropped d.overridden d.appended))) ∧
      (∀ r : Registry, r.run (Build.filter base sieve).run =
        some (.ok { base with tokens := kept }, r.emit (.filtered base.name d.dropped))) ∧
      (base.tokenNames.Nodup → ∀ token,
        (token, false) ∈ base.tokens.zip (sieve.answers sieve.start base.tokens) →
        token.name ∈ tokens.map (·.name) →
          ∃ index, d.grammar.position? token.name = some index ∧ kept.length ≤ index) := by
  have hcomprises := Derivation.comprises_derive base name sieve tokens
  refine ⟨_, _, rfl, hcomprises, fun r => rfl, fun r => ?_, ?_⟩
  · have hdropped : base.size - (sieve.chosen base.tokens).length =
        (base.derive name sieve tokens).dropped := by
      rw [← hcomprises.dropped, Nat.add_sub_cancel]
    rw [← hdropped, ← sieve.apply_eq]
    rfl
  · intro hnodup token hrefused hmem
    exact Derivation.exists_position?_eq hcomprises hmem (Sieve.not_mem_chosen hnodup hrefused)

theorem derive_overrides_appends_styleSheet :
    ∃ g selector comment element d, styleSheet = .ok g ∧
      Token.compile "selector" [.plain "\\w+"] = .ok selector ∧
      Token.compile "comment" [.plain "#.*"] = .ok comment ∧
      Token.compile "selector" [.plain "<\\w+>"] = .ok element ∧
      (∀ r : Registry, r.run (Build.derive g "page" .everyOther [selector, comment, element]).run =
        some (.ok d, r.emit (.derived "css" "page" 1 2 1))) ∧
      d.tokenNames = ["comment", "selector"] ∧ d.find? "comment" = some comment ∧
      d.find? "selector" = some element ∧
      ∃ index, d.position? "selector" = some index ∧ 1 ≤ index := by
  have hcheck : (styleSheet.toOption.bind fun g =>
      (Token.compile "selector" [.plain "\\w+"]).toOption.bind fun selector =>
      (Token.compile "comment" [.plain "#.*"]).toOption.bind fun comment =>
      (Token.compile "selector" [.plain "<\\w+>"]).toOption.map fun element =>
        (g.name, g.tokenNames, selector.name, comment.name, element.name)) =
      some ("css", ["comment", "selector"], "selector", "comment", "selector") := by
    decide +kernel
  obtain ⟨g, hg, hcheck⟩ := Option.bind_eq_some_iff.mp hcheck
  obtain ⟨selector, hselector, hcheck⟩ := Option.bind_eq_some_iff.mp hcheck
  obtain ⟨comment, hcomment, hcheck⟩ := Option.bind_eq_some_iff.mp hcheck
  obtain ⟨element, helement, hcheck⟩ := Option.map_eq_some_iff.mp hcheck
  simp only [Prod.mk.injEq] at hcheck
  obtain ⟨hname, hnames, hselectorName, hcommentName, helementName⟩ := hcheck
  obtain ⟨first, second, htokens⟩ : ∃ first second, g.tokens = [first, second] := by
    rw [← List.length_eq_two, ← List.length_map, ← tokenNames, hnames]
    rfl
  rw [tokenNames, htokens] at hnames
  simp only [List.map_cons, List.map_nil, List.cons.injEq, and_true] at hnames
  obtain ⟨hfirst, hsecond⟩ := hnames
  obtain ⟨_, d, rfl, hcomprises, hderive, -, hbehind⟩ :=
    g.derive_overrides_appends "page" .everyOther [selector, comment, element]
  have hkept : Sieve.everyOther.chosen g.tokens = [first] := by
    rw [htokens]
    rfl
  rw [hkept] at hcomprises hbehind
  have hdNames : d.grammar.tokenNames = ["comment", "selector"] := by
    rw [hcomprises.names]
    simp only [List.map_cons, List.map_nil, Token.newNames, hfirst, hselectorName, hcommentName,
      helementName]
    decide
  have hsize : g.size = 2 := by simp [size, htokens]
  have hdSize : d.grammar.size = 2 := by
    rw [size, ← List.length_map, ← tokenNames, hdNames]
    rfl
  have hdropped : d.dropped + 1 = g.size := hcomprises.dropped
  have hcounted : d.overridden + d.appended = 3 := hcomprises.counted
  have hgrown : d.grammar.size = 1 + d.appended := hcomprises.size
  obtain ⟨hd, ho, ha⟩ : d.dropped = 1 ∧ d.overridden = 2 ∧ d.appended = 1 := by omega
  refine ⟨g, selector, comment, element, d.grammar, eq_ok_of_toOption_eq_some hg,
    eq_ok_of_toOption_eq_some hselector, eq_ok_of_toOption_eq_some hcomment,
    eq_ok_of_toOption_eq_some helement, fun r => ?_, hdNames, ?_, ?_, ?_⟩
  · rw [hderive, hname, hd, ho, ha]
  · rw [hcomprises.found]
    simp [Token.lastNamed?, List.findRev?, hcommentName, helementName]
  · rw [hcomprises.found]
    simp [Token.lastNamed?, List.findRev?, helementName]
  · rw [← hsecond]
    apply hbehind
    · rw [tokenNames, htokens]
      simp [hfirst, hsecond]
    · simp [htokens, Sieve.everyOther, Sieve.answers]
    · simp [hsecond, hselectorName]

end Grammar

end Highlight
