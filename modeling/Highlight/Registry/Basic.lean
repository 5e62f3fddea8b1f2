import Highlight.Registry.Session
import Highlight.Scan.Tokenize
import Highlight.Text.Quoted

/-!
Registries: what is published, where more comes from, and what has happened.
-/

namespace Highlight

/-- A source of grammars that are built when they are first asked for. It has no state of its own:
what it answers depends on the name and on what its session learns from the registry, so a source
that fails at first and succeeds later, with nothing changed in the registry, is not one. -/
structure Locator where
  /-- Build the grammar of a name. There is no answer for a name that the locator does not
  know. -/
  grammar : String → Session (Option (Except GrammarError Grammar))
  languages : List String
  /-- The name that another one stands for. -/
  synonymOf : String → Option String := fun _ => none
  /-- How many grammars may be under construction at a time, each for the one before it. -/
  depth : Nat

/-- Published grammars, with a source of more and a record of what has happened, newest
first. -/
structure Registry where
  store : Store
  locator : Option Locator
  asked : List String
  log : List Event

namespace Registry

def empty : Registry :=
  ⟨.empty, none, [], []⟩

def withLocator (locator : Locator) : Registry :=
  ⟨.empty, some locator, [], []⟩

def emit (r : Registry) (event : Event) : Registry :=
  { r with log := event :: r.log }

def events (r : Registry) : List Event :=
  r.log.reverse

def askedNames (r : Registry) : List String :=
  r.asked.reverse

def noteAsked (r : Registry) (name : String) : Registry :=
  { r with asked := name :: r.asked }

/-- The name that another one stands for: by the registry's own synonyms, or else by those of
the locator. -/
def canonical (r : Registry) (name : String) : String :=
  match r.store.synonyms.find? name with
  | some target => target
  | none => (r.locator.bind (·.synonymOf name)).getD name

/-- The published grammar for a name. One of that very name takes precedence over one that the
name stands for. -/
def published? (r : Registry) (name : String) : Option Grammar :=
  match r.store.find? name with
  | some grammar => some grammar
  | none => r.store.find? (r.canonical name)

def contains (r : Registry) (name : String) : Bool :=
  r.store.contains name || r.store.contains (r.canonical name)

def names (r : Registry) : List String :=
  r.store.names

def size (r : Registry) : Nat :=
  r.store.grammars.size

/-- Publish a grammar under its own name, in the place of an earlier one. -/
def register (r : Registry) (grammar : Grammar) : Registry :=
  let event : Event :=
    if r.store.contains grammar.name then .replaced grammar.name
    else .registered grammar.name grammar.size
  let store := { r.store with grammars := r.store.grammars.insert grammar.name grammar }
  { r with store := store }.emit event

/-- Publish a grammar from the locator under the name it was asked for. An earlier one stays in
its place. -/
def publishLocated (r : Registry) (name : String) (grammar : Grammar) : Registry :=
  { r with store :=
      { r.store with grammars := r.store.grammars.insertNew name grammar } }

def addSynonym (r : Registry) (synonym target : String) : Registry :=
  { r with store :=
      { r.store with synonyms := r.store.synonyms.insert synonym target } }.emit
    (.aliased synonym target)

def summary (r : Registry) : String :=
  "GrammarRegistry \x7b grammars: " ++ Text.Quoted.quoteAll r.names ++
    ", aliases: " ++ toString r.store.synonyms.size ++
    ", locator: " ++ toString r.locator.isSome ++ " \x7d"

end Registry

end Highlight
