import Highlight.Grammar.Error
import Highlight.Regex.Compiled

/-!
Patterns, tokens and grammars, which are made of each other: a pattern may have a grammar for the
text that it matches. Within a grammar no two tokens share a name, and no token is without
patterns; `build`, `push` and `splice` refuse to make others.
-/

namespace Highlight

mutual

/-- A rule for a stretch of text: a regex, and what becomes of its matches. -/
structure Pattern where
  regex : Regex
  /-- The text up to the end of the first group is context and stays outside the token. -/
  lookbehind : Bool
  /-- The pattern is tried again behind its own match before any other is. -/
  global : Bool
  /-- The name to show in place of the token's. -/
  label : Option String
  inside : Option Grammar

/-- A name for the text that any of its patterns matches. Earlier patterns take precedence. -/
structure Token where
  name : String
  patterns : List Pattern

/-- How to cut up the text of a language. Earlier tokens take precedence. The name of a token is
the key that it is found by, with no other kept beside it: `push`, `upsert` and `splice` put a
token in under its own name, and those who edit a token in place leave its name as it is
(`Token.Edited.named`). -/
structure Grammar where
  name : String
  tokens : List Token
  /-- The name of the grammar that this one was derived from. -/
  parent : Option String

end

namespace Pattern

structure Options where
  flags : Regex.Flags := {}
  lookbehind : Bool := false
  global : Bool := false
  label : Option String := none
  inside : Option Grammar := none

def source (p : Pattern) : String :=
  p.regex.source

def flags (p : Pattern) : Regex.Flags :=
  p.regex.flags

/-- Compile a pattern. Context needs a group that holds it. -/
def build (source : String) (options : Options := {}) : Except GrammarError Pattern :=
  match Regex.compile source options.flags with
  | .error e => .error (.invalidPattern source ("Oniguruma error: " ++ e.message))
  | .ok regex =>
      if options.lookbehind && regex.groupCount == 0 then
        .error (.invalidPattern source "lookbehind requires a capture group holding the context")
      else
        .ok ⟨regex, options.lookbehind, options.global, options.label, options.inside⟩

end Pattern

namespace Token

def single (name : String) (pattern : Pattern) : Token :=
  ⟨name, [pattern]⟩

def build (name : String) (patterns : List Pattern) : Except GrammarError Token :=
  if patterns.isEmpty then .error (.emptyToken name) else .ok ⟨name, patterns⟩

def replacePatterns (t : Token) (patterns : List Pattern) : Except GrammarError Token :=
  build t.name patterns

/-- Append a pattern, which yields to all there are. -/
def push (t : Token) (pattern : Pattern) : Token :=
  { t with patterns := t.patterns ++ [pattern] }

/-- Exchange two patterns. Positions outside the list change nothing. -/
def swap (t : Token) (i j : Nat) : Token :=
  match t.patterns[i]?, t.patterns[j]? with
  | some p, some q => { t with patterns := (t.patterns.set i q).set j p }
  | _, _ => t

end Token

namespace Grammar

def empty (name : String) : Grammar :=
  ⟨name, [], none⟩

def tokenNames (g : Grammar) : List String :=
  g.tokens.map (·.name)

def find? (g : Grammar) (name : String) : Option Token :=
  g.tokens.find? (·.name == name)

def position? (g : Grammar) (name : String) : Option Nat :=
  g.tokens.findIdx? (·.name == name)

def contains (g : Grammar) (name : String) : Bool :=
  g.tokens.any (·.name == name)

def size (g : Grammar) : Nat :=
  g.tokens.length

/-- Append a token, whose name must be new. -/
def push (g : Grammar) (token : Token) : Except GrammarError Grammar :=
  if g.contains token.name then .error (.duplicateToken g.name token.name)
  else .ok { g with tokens := g.tokens ++ [token] }

def pushAll : (g : Grammar) → List Token → Except GrammarError Grammar
  | g, [] => .ok g
  | g, token :: rest => do (← g.push token).pushAll rest

def build (name : String) (tokens : List Token) : Except GrammarError Grammar :=
  (empty name).pushAll tokens

/-- Let a token take the place of the one of its name, or append it. -/
def upsert (g : Grammar) (token : Token) : Grammar :=
  if g.contains token.name then
    { g with tokens := g.tokens.map fun t => if t.name == token.name then token else t }
  else
    { g with tokens := g.tokens ++ [token] }

/-- The first of some tokens whose name is taken, in the grammar or by one before it. -/
def firstTaken? (taken : List String) : List Token → Option Token
  | [] => none
  | token :: rest =>
      if taken.contains token.name then some token else firstTaken? (token.name :: taken) rest

/-- Put tokens in front of the one at `index`. Their names must be new. -/
def splice (g : Grammar) (index : Nat) (tokens : List Token) : Except GrammarError Grammar :=
  match firstTaken? g.tokenNames tokens with
  | some token => .error (.duplicateToken g.name token.name)
  | none => .ok { g with tokens := g.tokens.take index ++ tokens ++ g.tokens.drop index }

end Grammar

end Highlight
