import Highlight.Grammar.Basic

/-!
Grammars derived from others by choosing, overriding and appending tokens.
-/

namespace Highlight

/-- A choice of tokens. It is asked once for each token, in order, and may remember. -/
structure Sieve (σ : Type) where
  start : σ
  keeps : Token → σ → Bool × σ

namespace Sieve

variable {σ : Type}

def ofPred (p : Token → Bool) : Sieve Unit :=
  ⟨(), fun token s => (p token, s)⟩

def all : Sieve Unit :=
  ofPred fun _ => true

def sift (sieve : Sieve σ) (s : σ) : List Token → List Token
  | [] => []
  | token :: rest =>
      match sieve.keeps token s with
      | (true, s) => token :: sieve.sift s rest
      | (false, s) => sieve.sift s rest

def apply (sieve : Sieve σ) (tokens : List Token) : List Token :=
  sieve.sift sieve.start tokens

end Sieve

/-- A grammar made from another one, and how far it differs from that. -/
structure Derivation where
  grammar : Grammar
  dropped : Nat
  overridden : Nat
  appended : Nat

namespace Derivation

def start {σ : Type} (base : Grammar) (name : String) (sieve : Sieve σ) : Derivation :=
  let kept := sieve.apply base.tokens
  ⟨⟨name, kept, some base.name⟩, base.tokens.length - kept.length, 0, 0⟩

/-- Add a token. It takes the place of the one of its name, if there is one. -/
def add (d : Derivation) (token : Token) : Derivation :=
  if d.grammar.contains token.name then
    { d with grammar := d.grammar.upsert token, overridden := d.overridden + 1 }
  else
    { d with grammar := d.grammar.upsert token, appended := d.appended + 1 }

end Derivation

namespace Grammar

/-- Derive a grammar: choose tokens, then add others. The grammar itself stays as it is. -/
def derive {σ : Type} (base : Grammar) (name : String) (sieve : Sieve σ)
    (tokens : List Token) : Derivation :=
  tokens.foldl Derivation.add (.start base name sieve)

def filter {σ : Type} (g : Grammar) (sieve : Sieve σ) : Grammar :=
  { g with tokens := sieve.apply g.tokens }

end Grammar

end Highlight
