import Highlight.Compose.Insert
import Highlight.Grammar.Draft
import Highlight.Proofs.Compose.Exchange
import Highlight.Proofs.Compose.Path

/-!
What is found at paths. A token or a grammar that is looked up in order to be changed is the one
that is looked up in order to be read, and to go along a path is to take one name after the other
(`Grammar.lookups_agree`).
-/

namespace Highlight

theorem Pattern.bind_find?_inside (patterns : List Pattern) :
    (patterns.find? (·.inside.isSome)).bind (·.inside) = patterns.findSome? (·.inside) := by
  induction patterns with
  | nil => rfl
  | cons p rest ih =>
      cases h : p.inside with
      | none => simp [h, ih]
      | some inner => simp [h]

theorem Token.map_value_focusInside? (t : Token) : t.focusInside?.map (·.value) = t.inside? := by
  rw [inside?, ← Pattern.bind_find?_inside, ← Spot.map_value_find?, focusInside?]
  cases Spot.find? (·.inside.isSome) t.patterns with
  | none => rfl
  | some spot => cases h : spot.value.inside <;> simp [h]

namespace Grammar

theorem map_value_focus? (g : Grammar) (name : String) :
    (g.focus? name).map (·.value) = g.find? name := by
  rw [find?, ← Spot.map_value_find?, focus?]
  cases Spot.find? (·.name == name) g.tokens <;> rfl

theorem map_value_focusAlong? (g : Grammar) (names : List String) :
    (g.focusAlong? names).map (·.value) = g.insideAlong? names := by
  induction names generalizing g with
  | nil => rfl
  | cons name rest ih =>
      rw [focusAlong?, insideAlong?, ← map_value_focus?]
      cases g.focus? name with
      | none => rfl
      | some token =>
          simp only [Option.map_some, Option.bind_eq_bind, Option.bind_some]
          rw [← Token.map_value_focusInside?]
          cases token.value.focusInside? with
          | none => rfl
          | some inside =>
              simp only [Option.map_some, Option.bind_some]
              rw [← ih]
              cases inside.value.focusAlong? rest <;> rfl

theorem tokenAlong?_append (g : Grammar) (names : List String) (name : String) :
    g.tokenAlong? (names ++ [name]) = (g.insideAlong? names).bind (·.find? name) := by
  induction names generalizing g with
  | nil => rfl
  | cons first rest ih =>
      have hstep : g.tokenAlong? (first :: (rest ++ [name])) = (g.find? first).bind fun token =>
          token.inside?.bind fun inner => inner.tokenAlong? (rest ++ [name]) := by
        cases rest <;> rfl
      rw [List.cons_append, hstep, insideAlong?]
      cases g.find? first with
      | none => rfl
      | some token =>
          cases h : token.inside? with
          | none => simp [h]
          | some inner => simp [h, ih]

theorem insideAlong?_append (g : Grammar) (names : List String) (name : String) :
    g.insideAlong? (names ++ [name]) = (g.tokenAlong? (names ++ [name])).bind (·.inside?) := by
  rw [tokenAlong?_append]
  induction names generalizing g with
  | nil => simp [insideAlong?]
  | cons first rest ih =>
      simp only [List.cons_append, insideAlong?, Option.bind_eq_bind, Option.bind_assoc, ih]

theorem tokenAt?_eq (g : Grammar) (path : String) :
    g.tokenAt? path = (g.insideAlong? (Path.owners path)).bind (·.find? (Path.last path)) := by
  rw [tokenAt?, Path.segments_eq, tokenAlong?_append]

theorem insideAt?_eq (g : Grammar) (path : String) :
    g.insideAt? path = g.insideAlong? (Path.segments path) := by
  rw [insideAt?, tokenAt?, Path.segments_eq, insideAlong?_append]
  rfl

theorem map_value_focusToken? (g : Grammar) (path : String) :
    (g.focusToken? path).map (·.value) = g.tokenAt? path := by
  rw [tokenAt?_eq, ← map_value_focusAlong?, focusToken?]
  cases g.focusAlong? (Path.owners path) with
  | none => rfl
  | some owner =>
      simp only [Option.map_some, Option.bind_eq_bind, Option.bind_some]
      rw [← map_value_focus?]
      cases owner.value.focus? (Path.last path) <;> rfl

theorem map_value_focusInside? (g : Grammar) (path : String) :
    (g.focusInside? path).map (·.value) = g.insideAt? path := by
  rw [insideAt?_eq, ← map_value_focusAlong?, focusInside?]

theorem tokenAt?_of_not_mem (g : Grammar) {name : String} (h : '/' ∉ name.toList) :
    g.tokenAt? name = g.find? name := by
  rw [tokenAt?_eq, Path.owners_of_not_mem h, Path.last_of_not_mem h]
  exact Option.bind_some _ _

theorem tokenAt?_append (g : Grammar) (path : String) {name : String} (h : '/' ∉ name.toList) :
    g.tokenAt? (path ++ "/" ++ name) = (g.insideAt? path).bind (·.find? name) := by
  rw [tokenAt?_eq, insideAt?_eq, Path.owners_append path h, Path.last_append path h]

theorem focusToken?_append (g : Grammar) (path : String) {name : String}
    (h : '/' ∉ name.toList) : g.focusToken? (path ++ "/" ++ name) = do
      let owner ← g.focusInside? path
      return owner.within (← owner.value.focus? name) := by
  rw [focusToken?, Path.owners_append path h, Path.last_append path h]
  rfl

/-- A token that is put at a path under the same name is found there. -/
theorem tokenAt?_plug {g : Grammar} {path : String} {focus : Focus Token Grammar}
    (h : g.focusToken? path = some focus) {token : Token} (hname : token.name = focus.value.name) :
    (focus.plug token).tokenAt? path = some token := by
  obtain ⟨hlast, owner, hplug⟩ := exchanges_of_focusToken? h
  obtain ⟨owner', halters, hexchanges⟩ := hplug token
  rw [tokenAt?_eq, hexchanges.symm.insideAlong?_eq, ← hlast, ← hname, Option.bind_some]
  exact (halters.symm hname).find?_eq

theorem insideAt?_plug {g : Grammar} {path : String} {focus : Focus Grammar Grammar}
    (h : g.focusInside? path = some focus) (inner : Grammar) :
    (focus.plug inner).insideAt? path = some inner := by
  rw [insideAt?_eq]
  exact (exchanges_of_focusAlong? h inner).symm.insideAlong?_eq

theorem position?_eq_none_iff {g : Grammar} {name : String} :
    g.position? name = none ↔ g.find? name = none := by
  simp [position?, find?]

theorem insert_of_tokenAt?_eq_none {g : Grammar} {anchor : String}
    (h : g.tokenAt? anchor = none) (side : Side) (tokens : List Token) :
    g.insert side anchor tokens = .error (.anchorNotFound g.name anchor) := by
  rw [tokenAt?_eq, ← map_value_focusAlong?] at h
  unfold insert
  cases howner : g.focusAlong? (Path.owners anchor) with
  | none => rfl
  | some owner =>
      rw [howner, Option.map_some, Option.bind_some, ← position?_eq_none_iff] at h
      simp only [h]

theorem exists_insert_eq {g : Grammar} {anchor : String} {token : Token}
    (h : g.tokenAt? anchor = some token) :
    ∃ owner index, g.focusAlong? (Path.owners anchor) = some owner ∧
      owner.value.find? (Path.last anchor) = some token ∧
      owner.value.position? (Path.last anchor) = some index ∧
      ∀ side tokens, g.insert side anchor tokens =
        (owner.value.splice (side.shift index) tokens).map owner.plug := by
  rw [tokenAt?_eq, ← map_value_focusAlong?] at h
  obtain ⟨inner, hinner, hfind⟩ := Option.bind_eq_some_iff.mp h
  obtain ⟨owner, howner, rfl⟩ := Option.map_eq_some_iff.mp hinner
  cases hindex : owner.value.position? (Path.last anchor) with
  | none =>
      rw [position?_eq_none_iff, hfind] at hindex
      cases hindex
  | some index =>
      refine ⟨owner, index, howner, hfind, hindex, fun side tokens => ?_⟩
      simp only [insert, howner, hindex]

theorem replacePatterns_of_tokenAt?_eq_none {g : Grammar} {path : String}
    (h : g.tokenAt? path = none) (patterns : List Pattern) :
    g.replacePatterns path patterns = .error (.tokenNotFound g.name path) := by
  rw [← map_value_focusToken?, Option.map_eq_none_iff] at h
  simp only [replacePatterns, h]

theorem exists_replacePatterns_eq {g : Grammar} {path : String} {token : Token}
    (h : g.tokenAt? path = some token) :
    ∃ focus, g.focusToken? path = some focus ∧ focus.value = token ∧
      ∀ patterns, g.replacePatterns path patterns =
        (token.replacePatterns patterns).map focus.plug := by
  rw [← map_value_focusToken?] at h
  obtain ⟨focus, hfocus, rfl⟩ := Option.map_eq_some_iff.mp h
  refine ⟨focus, hfocus, rfl, fun patterns => ?_⟩
  simp only [replacePatterns, hfocus]

theorem insert_eq_anchorNotFound_iff {g : Grammar} {side : Side} {path : String}
    {tokens : List Token} :
    (∃ grammar anchor, g.insert side path tokens = .error (.anchorNotFound grammar anchor)) ↔
      g.tokenAt? path = none := by
  constructor
  · rintro ⟨grammar, anchor, herror⟩
    cases hfind : g.tokenAt? path with
    | none => rfl
    | some token =>
        obtain ⟨owner, index, -, -, -, hinsert⟩ := exists_insert_eq hfind
        rw [hinsert, splice] at herror
        split at herror <;> cases herror
  · intro h
    exact ⟨g.name, path, insert_of_tokenAt?_eq_none h side tokens⟩

theorem replacePatterns_eq_tokenNotFound_iff {g : Grammar} {path : String}
    {patterns : List Pattern} :
    (∃ grammar other, g.replacePatterns path patterns = .error (.tokenNotFound grammar other)) ↔
      g.tokenAt? path = none := by
  constructor
  · rintro ⟨grammar, other, herror⟩
    cases hfind : g.tokenAt? path with
    | none => rfl
    | some token =>
        obtain ⟨focus, -, -, hreplace⟩ := exists_replacePatterns_eq hfind
        rw [hreplace, Token.replacePatterns, Token.build] at herror
        split at herror <;> cases herror
  · intro h
    exact ⟨g.name, path, replacePatterns_of_tokenAt?_eq_none h patterns⟩

/-- A token or grammar that is looked up at a path to be changed is the one that is looked up there
to be read: it is the same, and what is put in its place is then read. A path without a slash is
the name of a token; one with a slash leads to the token of its last name in the grammar to which
the path before it leads. So a change at a path misses its place just where no token is read. -/
theorem lookups_agree (g : Grammar) (path : String) :
    (g.focusToken? path).map (·.value) = g.tokenAt? path ∧
      (g.focusInside? path).map (·.value) = g.insideAt? path ∧
      (∀ focus, g.focusToken? path = some focus → ∀ token : Token,
        token.name = focus.value.name → (focus.plug token).tokenAt? path = some token) ∧
      (∀ focus, g.focusInside? path = some focus → ∀ inner,
        (focus.plug inner).insideAt? path = some inner) ∧
      (∀ name : String, '/' ∉ name.toList → g.tokenAt? name = g.find? name ∧
        g.tokenAt? (path ++ "/" ++ name) = (g.insideAt? path).bind (·.find? name) ∧
        g.focusToken? (path ++ "/" ++ name) = do
          let owner ← g.focusInside? path
          return owner.within (← owner.value.focus? name)) ∧
      (∀ side tokens, (∃ grammar anchor,
        g.insert side path tokens = .error (.anchorNotFound grammar anchor)) ↔
          g.tokenAt? path = none) ∧
      ∀ patterns, (∃ grammar other,
        g.replacePatterns path patterns = .error (.tokenNotFound grammar other)) ↔
          g.tokenAt? path = none :=
  ⟨g.map_value_focusToken? path, g.map_value_focusInside? path,
    fun _ hfocus _ hname => tokenAt?_plug hfocus hname,
    fun _ hfocus inner => insideAt?_plug hfocus inner,
    fun _ hname => ⟨g.tokenAt?_of_not_mem hname, g.tokenAt?_append path hname,
      g.focusToken?_append path hname⟩,
    fun _ _ => insert_eq_anchorNotFound_iff, fun _ => replacePatterns_eq_tokenNotFound_iff⟩

/-- Rules of style sheets. What the second pattern of selectors matches is divided further. -/
def styleSheet : Except GrammarError Grammar := do
  let inside ← Grammar.compile "inside" [("class", [.plain "\\.\\w+"]), ("id", [.plain "#\\w+"])]
  Grammar.compile "css" [("comment", [.plain "//.*"]),
    ("selector", [.plain "@\\w+", ⟨"[.#\\w]+", { inside := some inside }⟩])]

theorem lookups_agree_styleSheet :
    ∃ g id inside, styleSheet = .ok g ∧ g.tokenAt? "selector/id" = some id ∧
      (g.focusToken? "selector/id").map (·.value) = some id ∧
      g.insideAt? "selector" = some inside ∧ inside.find? "id" = some id ∧
      (∃ focus, g.focusToken? "selector/id" = some focus ∧
        (focus.plug ⟨"id", []⟩).tokenAt? "selector/id" = some ⟨"id", []⟩) ∧
      (∃ focus, g.focusInside? "selector" = some focus ∧
        (focus.plug (.empty "none")).insideAt? "selector" = some (.empty "none")) ∧
      g.tokenAt? "selector//id" = none ∧ ∀ side tokens, ∃ grammar anchor,
        g.insert side "selector//id" tokens = .error (.anchorNotFound grammar anchor) := by
  have hcheck : (styleSheet.toOption.bind fun g => (g.tokenAt? "selector/id").map fun id =>
      (id.name, (g.tokenAt? "selector//id").isNone)) = some ("id", true) := by decide +kernel
  obtain ⟨g, hg, hcheck⟩ := Option.bind_eq_some_iff.mp hcheck
  obtain ⟨id, hid, hcheck⟩ := Option.map_eq_some_iff.mp hcheck
  obtain ⟨hname, hnone⟩ := Prod.mk.inj hcheck
  obtain ⟨hsame, -, hplug, -⟩ := g.lookups_agree "selector/id"
  obtain ⟨-, hsame', -, hplug', hdown, -⟩ := g.lookups_agree "selector"
  have hmissing := (g.lookups_agree "selector//id").2.2.2.2.2.1
  have hdown := (hdown "id" (by decide)).2.1.symm.trans hid
  obtain ⟨inside, hinside, hfind⟩ := Option.bind_eq_some_iff.mp hdown
  obtain ⟨focus, hfocus, hvalue⟩ := Option.map_eq_some_iff.mp (hsame.trans hid)
  obtain ⟨focus', hfocus', -⟩ := Option.map_eq_some_iff.mp (hsame'.trans hinside)
  refine ⟨g, id, inside, eq_ok_of_toOption_eq_some hg, hid, hsame.trans hid, hinside, hfind,
    ⟨focus, hfocus, hplug focus hfocus _ ?_⟩, ⟨focus', hfocus', hplug' focus' hfocus' _⟩,
    Option.isNone_iff_eq_none.mp hnone, ?_⟩
  · rw [hvalue, hname]
  · intro side tokens
    exact (hmissing side tokens).mpr (Option.isNone_iff_eq_none.mp hnone)

end Grammar

end Highlight
