import Highlight.Compose.InPlace
import Highlight.Proofs.Compose.Lookup

/-!
Changes to the patterns of a token at a path. They show at the path, and at no path that leads
elsewhere, and those that fail change nothing (`Grammar.edits_local`).
-/

namespace Highlight

/-- Exchanging two patterns, as a permutation of the places. -/
theorem Token.getElem?_patterns_swap {t : Token} {i j : Nat} (hi : i < t.patterns.length)
    (hj : j < t.patterns.length) (k : Nat) :
    (t.swap i j).patterns[k]? = t.patterns[if k = i then j else if k = j then i else k]? := by
  rw [swap, List.getElem?_eq_getElem hi, List.getElem?_eq_getElem hj]
  simp only [List.getElem?_set, List.length_set]
  by_cases hkj : j = k
  · subst hkj
    by_cases hij : j = i
    · simp [hij, hi]
    · simp [hij, hj, hi]
  · by_cases hki : i = k
    · simp [hki, hkj, hj, hki ▸ hi]
    · simp [hkj, hki, Ne.symm hkj, Ne.symm hki]

theorem Token.of_replacePatterns_eq_ok {t t' : Token} {patterns : List Pattern}
    (h : t.replacePatterns patterns = .ok t') : t'.name = t.name ∧ t'.patterns = patterns := by
  rw [replacePatterns, build] at h
  split at h
  next => cases h
  next =>
    cases h
    exact ⟨rfl, rfl⟩

/-- `g.ChangesPatterns path token patterns g'` if `token` is the token of `g` at the path, and it
has `patterns` in `g'`, where all else is as it was: what is found at paths that lead neither to
the token nor through it, nor stop before it, and the token names of all grammars on the way. -/
structure Grammar.ChangesPatterns (g : Grammar) (path : String) (token : Token)
    (patterns : List Pattern) (g' : Grammar) : Prop where
  found : g.tokenAt? path = some token
  changed : g'.tokenAt? path = some { token with patterns := patterns }
  elsewhere : ∀ other, ¬ Path.segments path <+: Path.segments other →
    ¬ Path.segments other <+: Path.segments path → g'.tokenAt? other = g.tokenAt? other
  names : g'.tokenNames = g.tokenNames
  way : ∀ way, Path.segments way <+: Path.segments path →
    Path.segments way ≠ Path.segments path →
      (g'.insideAt? way).map (·.tokenNames) = (g.insideAt? way).map (·.tokenNames)

namespace Grammar

theorem changesPatterns_plug {g : Grammar} {path : String} {focus : Focus Token Grammar}
    (h : g.focusToken? path = some focus) {token : Token} (hname : token.name = focus.value.name) :
    g.ChangesPatterns path focus.value token.patterns (focus.plug token) := by
  obtain ⟨hlast, owner, hplug⟩ := exchanges_of_focusToken? h
  obtain ⟨owner', halters, hexchanges⟩ := hplug token
  have htoken : token = { focus.value with patterns := token.patterns } := Token.ext hname rfl
  have hnames := halters.tokenNames_eq hname
  have hsegments : Path.segments path = Path.owners path ++ [focus.value.name] := by
    rw [hlast, ← Path.segments_eq]
  constructor
  · rw [← map_value_focusToken?, h]
    rfl
  · rw [← htoken]
    exact tokenAt?_plug h hname
  · intro other hnot hnot'
    rw [hsegments] at hnot hnot'
    exact hexchanges.tokenAlong?_eq halters hname hnot hnot'
  · simpa [insideAlong?] using hexchanges.tokenNames_along hnames List.nil_prefix
  · intro way hway hne
    rw [insideAt?_eq, insideAt?_eq]
    apply hexchanges.tokenNames_along hnames
    rw [hsegments] at hway hne
    exact (List.prefix_concat_iff.mp hway).resolve_left hne

theorem changesPatterns_of_replacePatterns {g g' : Grammar} {path : String}
    {patterns : List Pattern} (h : g.replacePatterns path patterns = .ok g') :
    ∃ token, g.ChangesPatterns path token patterns g' := by
  obtain ⟨focus, token, hfocus, htoken, rfl⟩ := exists_of_replacePatterns_eq_ok h
  obtain ⟨hname, rfl⟩ := Token.of_replacePatterns_eq_ok htoken
  exact ⟨focus.value, changesPatterns_plug hfocus hname⟩

theorem replacePatternsInPlace_eq (g : Grammar) (path : String) (patterns : List Pattern) :
    g.replacePatternsInPlace path patterns =
      .allOrNothing g (g.replacePatterns path patterns) := by
  unfold replacePatternsInPlace replacePatterns
  cases hfocus : g.focusToken? path with
  | none => rfl
  | some focus =>
      apply Focus.carryOut_allOrNothing (plug_value_of_focusToken? hfocus)
      rw [Token.replacePatternsInPlace, Token.replacePatterns, Token.build]
      split <;> rfl

/-- Changes to the patterns of the token at a path are changes to that token alone. They are made
as a whole; those that miss the token, or would leave it without patterns, are not made at all. -/
theorem edits_local (g : Grammar) (path : String) :
    (∀ patterns g', g.replacePatterns path patterns = .ok g' →
      ∃ token, g.ChangesPatterns path token patterns g') ∧
    (∀ focus pattern, g.focusToken? path = some focus →
      g.ChangesPatterns path focus.value (focus.value.patterns ++ [pattern])
        (focus.plug (focus.value.push pattern))) ∧
    (∀ focus i j, g.focusToken? path = some focus → i < focus.value.patterns.length →
      j < focus.value.patterns.length → ∃ patterns,
        g.ChangesPatterns path focus.value patterns (focus.plug (focus.value.swap i j)) ∧
        ∀ k, patterns[k]? =
          focus.value.patterns[if k = i then j else if k = j then i else k]?) ∧
    (g.tokenAt? path = none → ∀ patterns,
      g.replacePatterns path patterns = .error (.tokenNotFound g.name path)) ∧
    (∀ token, g.tokenAt? path = some token →
      g.replacePatterns path [] = .error (.emptyToken token.name) ∧
      ∀ patterns, patterns ≠ [] → ∃ g', g.replacePatterns path patterns = .ok g') ∧
    ∀ patterns, g.replacePatternsInPlace path patterns =
      .allOrNothing g (g.replacePatterns path patterns) := by
  refine ⟨fun _ _ h => changesPatterns_of_replacePatterns h, ?_, ?_,
    fun h => replacePatterns_of_tokenAt?_eq_none h, ?_, g.replacePatternsInPlace_eq path⟩
  · intro focus pattern hfocus
    exact changesPatterns_plug hfocus (Token.name_push _ pattern)
  · intro focus i j hfocus hi hj
    exact ⟨_, changesPatterns_plug hfocus (Token.name_swap _ i j),
      Token.getElem?_patterns_swap hi hj⟩
  · intro token hfind
    obtain ⟨focus, -, -, hreplace⟩ := exists_replacePatterns_eq hfind
    refine ⟨by rw [hreplace]; rfl, fun patterns hne => ?_⟩
    rw [hreplace, Token.replacePatterns, Token.build, if_neg (by simpa using hne)]
    exact ⟨_, rfl⟩

theorem edits_local_styleSheet :
    ∃ g id comment selector changed, styleSheet = .ok g ∧
      g.tokenAt? "selector/id" = some id ∧ g.tokenAt? "comment" = some comment ∧
      g.tokenAt? "selector" = some selector ∧
      g.replacePatternsInPlace "selector/id" comment.patterns = .success changed ∧
      g.ChangesPatterns "selector/id" id comment.patterns changed ∧
      changed.tokenAt? "selector/class" = g.tokenAt? "selector/class" ∧
      (∀ pattern, ∃ focus, g.focusToken? "selector" = some focus ∧
        g.ChangesPatterns "selector" selector (selector.patterns ++ [pattern])
          (focus.plug (selector.push pattern))) ∧
      (∃ focus patterns, g.focusToken? "selector" = some focus ∧
        g.ChangesPatterns "selector" selector patterns (focus.plug (selector.swap 0 1)) ∧
        patterns[0]? = selector.patterns[1]?) ∧
      g.replacePatternsInPlace "selector/id" [] = .failure (.emptyToken "id") g ∧
      g.replacePatternsInPlace "selector/none" [] =
        .failure (.tokenNotFound "css" "selector/none") g := by
  have hcheck : (styleSheet.toOption.bind fun g => (g.tokenAt? "selector/id").bind fun id =>
      (g.tokenAt? "comment").bind fun comment => (g.tokenAt? "selector").map fun selector =>
        (g.name, id.name, comment.patterns.length, selector.patterns.length,
          (g.tokenAt? "selector/none").isNone)) = some ("css", "id", 1, 2, true) := by
    decide +kernel
  obtain ⟨g, hg, hcheck⟩ := Option.bind_eq_some_iff.mp hcheck
  obtain ⟨id, hid, hcheck⟩ := Option.bind_eq_some_iff.mp hcheck
  obtain ⟨comment, hcomment, hcheck⟩ := Option.bind_eq_some_iff.mp hcheck
  obtain ⟨selector, hselector, hcheck⟩ := Option.map_eq_some_iff.mp hcheck
  simp only [Prod.mk.injEq, Option.isNone_iff_eq_none] at hcheck
  obtain ⟨hgName, hidName, hone, htwo, hnone⟩ := hcheck
  obtain ⟨hreplace, -, -, -, hfound, hplace⟩ := g.edits_local "selector/id"
  obtain ⟨hempty, hfull⟩ := hfound id hid
  have hne : comment.patterns ≠ [] := by
    rw [← List.length_pos_iff, hone]
    exact Nat.one_pos
  obtain ⟨changed, hchanged⟩ := hfull comment.patterns hne
  obtain ⟨token, hchanges⟩ := hreplace comment.patterns changed hchanged
  obtain rfl := Option.some.inj (hchanges.found.symm.trans hid)
  obtain ⟨-, hpush, hswap, -⟩ := g.edits_local "selector"
  obtain ⟨focus, hfocus, rfl⟩ := Option.map_eq_some_iff.mp
    ((g.map_value_focusToken? "selector").trans hselector)
  obtain ⟨patterns, hswapped, hplaces⟩ :=
    hswap focus 0 1 hfocus (by simp [htwo]) (by simp [htwo])
  obtain ⟨-, -, -, hmissing, -, hplace'⟩ := g.edits_local "selector/none"
  refine ⟨g, token, comment, focus.value, changed, eq_ok_of_toOption_eq_some hg, hid, hcomment,
    hselector, ?_, hchanges, ?_, fun pattern => ⟨focus, hfocus, hpush focus pattern hfocus⟩,
    ⟨focus, patterns, hfocus, hswapped, by simpa using hplaces 0⟩, ?_, ?_⟩
  · rw [hplace, hchanged]
    rfl
  · exact hchanges.elsewhere "selector/class" (by decide) (by decide)
  · rw [hplace, hempty, hidName]
    rfl
  · rw [hplace', hmissing hnone, hgName]
    rfl

end Grammar

end Highlight
