import Highlight.Compose.Insert

/-!
Events worth reporting, and how they are worded.
-/

namespace Highlight

inductive EventLevel where
  | trace
  | debug
  | warn
deriving DecidableEq

namespace EventLevel

def name : EventLevel → String
  | .trace => "TRACE"
  | .debug => "DEBUG"
  | .warn => "WARN"

end EventLevel

/-- What is known about an event: a text or a number. -/
inductive EventField where
  | text (text : String)
  | number (number : Nat)
deriving DecidableEq

/-- What happens in the course of work with grammars. -/
inductive Event where
  | tokenized (grammar : String) (bytes nodes : Nat)
  | registered (grammar : String) (tokens : Nat)
  | replaced (grammar : String)
  | aliased (synonym target : String)
  /-- A locator built a grammar, whose own name is `built`. -/
  | loaded (grammar built : String)
  | locatorFailed (grammar : String) (error : GrammarError)
  | derived (base name : String) (dropped overridden appended : Nat)
  | filtered (grammar : String) (removed : Nat)
  | inserted (grammar anchor : String) (side : Side) (count : Nat)
  | replacedPatterns (grammar path : String)
deriving DecidableEq

namespace Event

def level : Event → EventLevel
  | tokenized .. => .trace
  | replaced .. | locatorFailed .. => .warn
  | _ => .debug

def message : Event → String
  | tokenized .. => "Tokenized"
  | registered .. => "Registered grammar"
  | replaced .. => "Replaced registered grammar"
  | aliased .. => "Registered grammar alias"
  | loaded .. => "Loaded grammar from locator"
  | locatorFailed .. => "Grammar locator failed"
  | derived .. => "Derived grammar"
  | filtered .. => "Filtered tokens"
  | inserted .. => "Inserted tokens"
  | replacedPatterns .. => "Replaced token patterns"

def fields : Event → List (String × EventField)
  | tokenized grammar bytes nodes =>
      [("grammar", .text grammar), ("len", .number bytes), ("nodes", .number nodes)]
  | registered grammar tokens => [("grammar", .text grammar), ("tokens", .number tokens)]
  | replaced grammar => [("grammar", .text grammar)]
  | aliased synonym target => [("alias", .text synonym), ("target", .text target)]
  | loaded grammar built => [("grammar", .text grammar), ("built", .text built)]
  | locatorFailed grammar error =>
      [("grammar", .text grammar), ("error", .text error.message)]
  | derived base name dropped overridden appended =>
      [("base", .text base), ("derived", .text name), ("dropped", .number dropped),
        ("overridden", .number overridden), ("appended", .number appended)]
  | filtered grammar removed => [("grammar", .text grammar), ("removed", .number removed)]
  | inserted grammar anchor side count =>
      [("grammar", .text grammar), ("anchor", .text anchor), ("side", .text (sideName side)),
        ("count", .number count)]
  | replacedPatterns grammar path => [("grammar", .text grammar), ("path", .text path)]
where
  sideName : Side → String
    | .before => "Before"
    | .after => "After"

end Event

end Highlight
