import Highlight.Proofs.Compose.Path
import Highlight.Proofs.Compose.WellFormed

/-!
What edits inside leave alone. The headings of a grammar tell everything about its patterns but the
grammars inside them. An edit at a path of two names or more changes nothing but such a grammar, so
that it keeps the headings (`Grammar.headings_of_insert`, `Grammar.headings_of_replacePatterns`).
-/

namespace Highlight

/-- What there is to a pattern of a token, apart from the grammar inside it. -/
structure Heading where
  token : String
  source : String
  flags : Regex.Flags
  lookbehind : Bool
  global : Bool
  label : Option String
deriving DecidableEq

def Pattern.heading (p : Pattern) (token : String) : Heading :=
  ⟨token, p.source, p.flags, p.lookbehind, p.global, p.label⟩

def Token.headings (t : Token) : List Heading :=
  t.patterns.map (·.heading t.name)

/-- The headings of all patterns of a grammar, in order of precedence. -/
def Grammar.headings (g : Grammar) : List Heading :=
  g.tokens.flatMap (·.headings)

theorem Token.headings_of_focusInside? {t : Token} {focus : Focus Grammar Token}
    (h : t.focusInside? = some focus) (inner : Grammar) :
    (focus.plug inner).headings = t.headings := by
  obtain ⟨spot, hspot, h⟩ := Option.bind_eq_some_iff.mp h
  obtain ⟨found, -, heq⟩ := Option.bind_eq_some_iff.mp h
  cases heq
  have hfill := Spot.fill_value_of_find? hspot
  rw [headings, headings, ← hfill]
  simp [Spot.fill, Pattern.heading, Pattern.source, Pattern.flags]

namespace Grammar

theorem headings_of_focus? {g : Grammar} {name : String} {focus : Focus Token Grammar}
    (h : g.focus? name = some focus) {token : Token}
    (htoken : token.headings = focus.value.headings) :
    (focus.plug token).headings = g.headings := by
  obtain ⟨spot, hspot, heq⟩ := Option.bind_eq_some_iff.mp h
  cases heq
  have hfill := Spot.fill_value_of_find? hspot
  simp only at htoken
  rw [headings, headings, ← hfill]
  simp [Spot.fill, htoken]

/-- Whatever grammar is put at the end of a path, the headings of the outermost one stay. -/
theorem headings_of_focusAlong? {g : Grammar} {names : List String}
    {focus : Focus Grammar Grammar} (h : g.focusAlong? names = some focus) (hne : names ≠ [])
    (inner : Grammar) : (focus.plug inner).headings = g.headings := by
  cases names with
  | nil => exact absurd rfl hne
  | cons name rest =>
      obtain ⟨token, htoken, h⟩ := Option.bind_eq_some_iff.mp h
      obtain ⟨inside, hinside, h⟩ := Option.bind_eq_some_iff.mp h
      obtain ⟨owner, -, heq⟩ := Option.bind_eq_some_iff.mp h
      cases heq
      exact headings_of_focus? htoken (Token.headings_of_focusInside? hinside _)

theorem headings_of_insert {g g' : Grammar} {side : Side} {anchor : String} {tokens : List Token}
    (hnested : '/' ∈ anchor.toList) (h : g.insert side anchor tokens = .ok g') :
    g'.headings = g.headings := by
  obtain ⟨owner, index, spliced, howner, -, -, rfl⟩ := exists_of_insert_eq_ok h
  exact headings_of_focusAlong? howner (Path.owners_ne_nil hnested) spliced

theorem headings_of_replacePatterns {g g' : Grammar} {path : String} {patterns : List Pattern}
    (hnested : '/' ∈ path.toList) (h : g.replacePatterns path patterns = .ok g') :
    g'.headings = g.headings := by
  obtain ⟨focus, token, hfocus, -, rfl⟩ := exists_of_replacePatterns_eq_ok h
  obtain ⟨owner, howner, hfocus⟩ := Option.bind_eq_some_iff.mp hfocus
  obtain ⟨last, -, heq⟩ := Option.bind_eq_some_iff.mp hfocus
  cases heq
  exact headings_of_focusAlong? howner (Path.owners_ne_nil hnested) _

end Grammar

end Highlight
