import Highlight.Registry.Basic

/-!
Carrying out sessions. A request for a grammar that has not been published turns to the locator,
whose own session is carried out first.
-/

namespace Highlight

/-- How a registry gets a grammar that has not been published. There is no outcome if that takes
more depth than there is. -/
abbrev Load : Type :=
  String → Registry → Option (Except GrammarError Grammar × Registry)

namespace Registry

/-- Answer a request for a grammar: from what is published, or else with what `load` gets for
the name that is stood for. -/
def require (load : Load) (name : String) (r : Registry) :
    Option (Except GrammarError Grammar × Registry) :=
  match r.published? name with
  | some grammar => some (.ok grammar, r)
  | none =>
      if r.locator.isSome then load (r.canonical name) r
      else some (.error (.unknownGrammar (r.canonical name)), r)

end Registry

namespace Session

variable {α : Type}

/-- Carry out a session, where `load` gets the grammars that have not been published. -/
def runWith (load : Load) : Session α → Registry → Option (α × Registry)
  | .done value, r => some (value, r)
  | .require name next, r => do
      let (answer, r) ← r.require load name
      (next answer).runWith load r
  | .register grammar next, r => next.runWith load (r.register grammar)
  | .addSynonym synonym target next, r => next.runWith load (r.addSynonym synonym target)
  | .inspect next, r => (next r.store).runWith load r
  | .emit event next, r => next.runWith load (r.emit event)

end Session

namespace Locator

/-- What becomes of a locator's answer: a grammar is published. -/
def settle (name : String) (answer : Option (Except GrammarError Grammar)) (r : Registry) :
    Except GrammarError Grammar × Registry :=
  match answer with
  | none => (.error (.unknownGrammar name), r)
  | some (.error e) => (.error e, r)
  | some (.ok grammar) =>
      let r := (r.emit (.loaded name grammar.name)).publishLocated name grammar
      (.ok ((r.store.find? name).getD grammar), r)

/-- Ask a locator for a grammar, with at most `depth` grammars under construction at a time. -/
def load (locator : Locator) : (depth : Nat) → Load
  | 0, _, _ => none
  | depth + 1, name, r => do
      let (answer, r) ← (locator.grammar name).runWith (locator.load depth) (r.noteAsked name)
      return settle name answer r

end Locator

namespace Registry

def load (r : Registry) : Load :=
  match r.locator with
  | some locator => locator.load locator.depth
  | none => fun name r => some (.error (.unknownGrammar name), r)

/-- Carry out a session. There is no outcome if grammars under construction ask for each other
more deeply than the locator allows. -/
def run {α : Type} (r : Registry) (session : Session α) : Option (α × Registry) :=
  session.runWith r.load r

end Registry

namespace Session

/-- Ask for a grammar. A failure other than an unknown name is reported, none is passed on. -/
def get (name : String) : Session (Option Grammar) :=
  .require name fun
    | .ok grammar => .done (some grammar)
    | .error (.unknownGrammar _) => .done none
    | .error e => .emit (.locatorFailed name e) (.done none)

def requireAll : List String → Session (Except GrammarError Unit)
  | [] => .done (.ok ())
  | name :: rest => .require name fun
      | .ok _ => requireAll rest
      | .error e => .done (.error e)

def tokenize (g : Grammar) (text : String) : Session (Except Fault (List Node)) :=
  match g.tokenize text with
  | .ok nodes => .emit (.tokenized g.name (Text.width text.toList) nodes.length) (.done (.ok nodes))
  | .error fault => .done (.error fault)

def tokenizeBy (name text : String) :
    Session (Except GrammarError (Except Fault (List Node))) :=
  .require name fun
    | .ok g => do return .ok (← tokenize g text)
    | .error e => .done (.error e)

end Session

namespace Registry

/-- Build every grammar that the locator knows, up to the first failure. -/
def loadAll (r : Registry) : Session (Except GrammarError Unit) :=
  Session.requireAll ((r.locator.map (·.languages)).getD [])

end Registry

end Highlight
