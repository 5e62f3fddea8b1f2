import Highlight.Scan.Steps
import Highlight.Text.Range

/-!
The nodes that the steps of a scan make, with ranges in the whole text.
-/

namespace Highlight.Forest

/-- The range between two offsets of a text that stands at `base`. -/
def rangeAt (base start stop : Nat) : Except Fault TextRange :=
  match TextRange.ofOffsets? (base + start) (base + stop) with
  | some range => .ok range
  | none => .error .range

/-- Text that a scan has not given to any token, up to the place reached. -/
structure Run where
  first : Cursor
  /-- The text from `first` on, last character first. -/
  text : List Char
  place : Cursor

namespace Run

def start (c : Cursor) : Run :=
  ⟨c, [], c⟩

/-- Take in the text up to an offset. The run must have a range at each stage. -/
def extend (run : Run) (base stop : Nat) : Except Fault Run := do
  if stop = run.place.offset then return run
  match run.place.readTo? stop with
  | none => throw .cut
  | some (front, place) =>
      let _ ← rangeAt base run.first.offset stop
      return { run with text := front.reverse ++ run.text, place := place }

def literal (run : Run) (base : Nat) : Except Fault (List Node) := do
  if run.text.isEmpty then return []
  let range ← rangeAt base run.first.offset run.place.offset
  return [.literal (String.ofList run.text.reverse) range]

end Run

/-- The token of a hit, in the text behind its context, and the place behind it. -/
def token (base : Nat) (rule : Rule) (hit : Hit) (c : Cursor) :
    Except Fault (Node × Cursor) := do
  match c.readTo? hit.stop with
  | none => throw .cut
  | some (text, place) =>
      let children ← match rule.inside with
        | some tokenize => tokenize (base + hit.contextEnd) text
        | none => pure []
      let range ← rangeAt base hit.contextEnd hit.stop
      let matched : Matched := ⟨rule.token, rule.label, String.ofList text, range, children⟩
      return (.matched matched, place)

/-- The nodes for the steps of a scan. Skipped characters and context make literal runs, which
end at the next token. -/
def build (base : Nat) : Run → List Step → Except Fault (List Node)
  | run, [] => run.literal base
  | run, .skip stop :: rest => do build base (← run.extend base stop) rest
  | run, .take rule hit :: rest => do
      let run ← run.extend base hit.contextEnd
      let before ← run.literal base
      let (node, place) ← token base rule hit run.place
      return before ++ node :: (← build base (.start place) rest)

def ofRules (rules : List Rule) : Tokenizer := fun base text => do
  build base (.start (.start text)) (← Scan.steps rules text)

end Highlight.Forest
