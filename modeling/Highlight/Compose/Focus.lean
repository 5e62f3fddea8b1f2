import Highlight.Compose.Path

/-!
Parts of grammars that can be exchanged: what a path leads to, together with the way back to the
whole grammar.
-/

namespace Highlight

/-- A part of a whole, and the whole as a function of that part. -/
structure Focus (α ω : Type) where
  value : α
  plug : α → ω

namespace Focus

variable {α β ω : Type}

def within (outer : Focus β ω) (inner : Focus α β) : Focus α ω :=
  ⟨inner.value, fun a => outer.plug (inner.plug a)⟩

end Focus

/-- The grammar inside the first pattern that has one, as a part of the token. -/
def Token.focusInside? (t : Token) : Option (Focus Grammar Token) := do
  let spot ← Spot.find? (·.inside.isSome) t.patterns
  let inner ← spot.value.inside
  return ⟨inner, fun g => { t with patterns := spot.fill { spot.value with inside := some g } }⟩

namespace Grammar

def focus? (g : Grammar) (name : String) : Option (Focus Token Grammar) := do
  let spot ← Spot.find? (·.name == name) g.tokens
  return ⟨spot.value, fun t => { g with tokens := spot.fill t }⟩

/-- The grammar to which some names lead, as a part of the outermost one. -/
def focusAlong? (g : Grammar) : List String → Option (Focus Grammar Grammar)
  | [] => some ⟨g, id⟩
  | name :: rest => do
      let token ← g.focus? name
      let inside ← token.value.focusInside?
      let inner ← inside.value.focusAlong? rest
      return token.within (inside.within inner)

def focusInside? (g : Grammar) (path : String) : Option (Focus Grammar Grammar) :=
  g.focusAlong? (Path.segments path)

def focusToken? (g : Grammar) (path : String) : Option (Focus Token Grammar) := do
  let owner ← g.focusAlong? (Path.owners path)
  let token ← owner.value.focus? (Path.last path)
  return owner.within token

end Grammar

end Highlight
