import Highlight.Compose.Derive
import Highlight.Registry.Event
import Highlight.Registry.Store

/-!
Sessions with a registry, as values: both those who use a registry and the locators that fill it
are written as sessions.
-/

namespace Highlight

/-- A sequence of requests to a registry, with the answers awaited in between. It ends with a
value. -/
inductive Session (α : Type) : Type where
  | done (value : α)
  | require (name : String) (next : Except GrammarError Grammar → Session α)
  /-- Publish a grammar under its own name. -/
  | register (grammar : Grammar) (next : Session α)
  /-- Let a name stand for another. -/
  | addSynonym (synonym target : String) (next : Session α)
  | inspect (next : Store → Session α)
  | emit (event : Event) (next : Session α)

namespace Session

variable {α β : Type}

def andThen : Session α → (α → Session β) → Session β
  | .done value, f => f value
  | .require name next, f => .require name fun answer => (next answer).andThen f
  | .register grammar next, f => .register grammar (next.andThen f)
  | .addSynonym synonym target next, f => .addSynonym synonym target (next.andThen f)
  | .inspect next, f => .inspect fun store => (next store).andThen f
  | .emit event next, f => .emit event (next.andThen f)

instance : Monad Session where
  pure := .done
  bind := andThen

end Session

/-- A session that may fail. -/
abbrev Build (α : Type) : Type :=
  ExceptT GrammarError Session α

namespace Build

variable {α : Type}

def ofExcept (result : Except GrammarError α) : Build α :=
  ExceptT.mk (.done result)

/-- The session itself, with its failure as a value. -/
def run (build : Build α) : Session (Except GrammarError α) :=
  ExceptT.run build

def require (name : String) : Build Grammar :=
  ExceptT.mk (.require name .done)

def register (grammar : Grammar) : Build Grammar :=
  ExceptT.mk (.register grammar (.done (.ok grammar)))

def emit (event : Event) : Build Unit :=
  ExceptT.mk (.emit event (.done (.ok ())))

def define (name : String) (tokens : List Token) : Build Grammar := do
  register (← ofExcept (Grammar.build name tokens))

def derive {σ : Type} (base : Grammar) (name : String) (sieve : Sieve σ)
    (tokens : List Token) : Build Grammar := do
  let d := base.derive name sieve tokens
  emit (.derived base.name name d.dropped d.overridden d.appended)
  return d.grammar

def extendFiltered {σ : Type} (base name : String) (sieve : Sieve σ)
    (tokens : List Token) : Build Grammar := do
  derive (← require base) name sieve tokens

def extend (base name : String) (tokens : List Token) : Build Grammar :=
  extendFiltered base name .all tokens

def filter {σ : Type} (g : Grammar) (sieve : Sieve σ) : Build Grammar := do
  let filtered := g.filter sieve
  emit (.filtered g.name (g.size - filtered.size))
  return filtered

def insert (g : Grammar) (side : Side) (anchor : String) (tokens : List Token) :
    Build Grammar := do
  let result ← ofExcept (g.insert side anchor tokens)
  emit (.inserted g.name anchor side tokens.length)
  return result

def replacePatterns (g : Grammar) (path : String) (patterns : List Pattern) :
    Build Grammar := do
  let result ← ofExcept (g.replacePatterns path patterns)
  emit (.replacedPatterns g.name path)
  return result

end Build

end Highlight
