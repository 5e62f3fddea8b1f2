import Highlight.Compose.Insert

/-!
Changes that are carried out on a grammar where it stands, one move after the other. Each leaves a
grammar behind, also where it fails: what had been done by then stays done.
-/

namespace Highlight

/-- How a change ended, and what it left behind. -/
structure Aftermath (α : Type) where
  outcome : Except GrammarError Unit
  left : α

namespace Aftermath

variable {α : Type}

def success (a : α) : Aftermath α :=
  ⟨.ok (), a⟩

def failure (e : GrammarError) (a : α) : Aftermath α :=
  ⟨.error e, a⟩

/-- The aftermath of a change that leaves its result or, if it has none, all as it was. -/
def allOrNothing (a : α) : Except GrammarError α → Aftermath α
  | .ok result => success result
  | .error e => failure e a

end Aftermath

/-- Carry out a change on a part, in its place in the whole. -/
def Focus.carryOut {α ω : Type} (focus : Focus α ω) (change : α → Aftermath α) : Aftermath ω :=
  let after := change focus.value
  ⟨after.outcome, focus.plug after.left⟩

theorem Focus.carryOut_allOrNothing {α ω : Type} {focus : Focus α ω} {whole : ω}
    (hwhole : focus.plug focus.value = whole) {change : α → Aftermath α}
    {result : Except GrammarError α}
    (hchange : change focus.value = .allOrNothing focus.value result) :
    focus.carryOut change = .allOrNothing whole (result.map focus.plug) := by
  rw [carryOut, hchange, ← hwhole]
  cases result <;> rfl

def Token.replacePatternsInPlace (patterns : List Pattern) (t : Token) : Aftermath Token :=
  if patterns.isEmpty then .failure (.emptyToken t.name) t
  else .success { t with patterns := patterns }

namespace Grammar

/-- Put a token at an index. If there is one of its name, that one is taken out first. -/
def putAt (g : Grammar) (index : Nat) (token : Token) : Grammar :=
  { g with tokens := (g.tokens.filter (·.name != token.name)).insertIdx index token }

/-- Put tokens at an index and those that follow it, one after the other. -/
def putAllAt (g : Grammar) (index : Nat) : List Token → Grammar
  | [] => g
  | token :: rest => (g.putAt index token).putAllAt (index + 1) rest

def spliceInPlace (index : Nat) (tokens : List Token) (g : Grammar) : Aftermath Grammar :=
  match firstTaken? g.tokenNames tokens with
  | some token => .failure (.duplicateToken g.name token.name) g
  | none => .success (g.putAllAt index tokens)

def insertInPlace (g : Grammar) (side : Side) (anchor : String) (tokens : List Token) :
    Aftermath Grammar :=
  let missing : GrammarError := .anchorNotFound g.name anchor
  match g.focusAlong? (Path.owners anchor) with
  | none => .failure missing g
  | some owner => owner.carryOut fun inner =>
      match inner.position? (Path.last anchor) with
      | none => .failure missing inner
      | some index => inner.spliceInPlace (side.shift index) tokens

def replacePatternsInPlace (g : Grammar) (path : String) (patterns : List Pattern) :
    Aftermath Grammar :=
  match g.focusToken? path with
  | none => .failure (.tokenNotFound g.name path) g
  | some token => token.carryOut (Token.replacePatternsInPlace patterns)

end Grammar

end Highlight
