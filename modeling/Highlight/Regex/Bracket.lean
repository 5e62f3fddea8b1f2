import Highlight.Regex.Escape

/-!
Bracket expressions such as `[a-z&&[^q]]`, read from left to right.
-/

namespace Highlight.Regex

/-- What has just been read in a bracket expression, as far as a hyphen behind it is
concerned. -/
inductive Pending where
  | start
  | code (code : Nat)
  | shorthand
  /-- A code point and a hyphen behind it. -/
  | rangeFrom (first : Nat)
  | done

/-- A bracket expression that is still open: its members so far, and what stood before the last
`&&`. -/
structure Bracket where
  negate : Bool
  left : Option CharClass
  members : CharClass
  pending : Pending

namespace Bracket

def opened (negate : Bool) : Bracket :=
  ⟨negate, none, .none, .start⟩

def add (b : Bracket) (members : CharClass) (pending : Pending) : Bracket :=
  { b with members := .union b.members members, pending := pending }

def settle (b : Bracket) : Bracket :=
  match b.pending with
  | .code code => b.add (.single code) .done
  | _ => b

def addCode (b : Bracket) (code : Nat) : Except SyntaxError Bracket :=
  match b.pending with
  | .rangeFrom first =>
      if code < first then .error .rangeEmpty else .ok (b.add (.range first code) .done)
  | _ => .ok { b.settle with pending := .code code }

def addClass (b : Bracket) (members : CharClass) : Except SyntaxError Bracket :=
  match b.pending with
  | .rangeFrom _ => .error .rangeOpen
  | _ => .ok (b.settle.add members .shorthand)

/-- A hyphen makes a range if a code point stands before it and the expression goes on behind
it. Elsewhere it stands for itself. -/
def addHyphen (b : Bracket) (rest : List Char) : Except SyntaxError Bracket :=
  match b.pending, rest with
  | .code _, ']' :: _ => b.addCode '-'.toNat
  | .code _, '&' :: '&' :: _ => b.addCode '-'.toNat
  | .code first, _ => .ok { b with pending := .rangeFrom first }
  | _, _ => b.addCode '-'.toNat

def content (b : Bracket) : CharClass :=
  match b.left with
  | none => b.settle.members
  | some left => .inter left b.settle.members

def conjoin (b : Bracket) : Bracket :=
  ⟨b.negate, some b.content, .none, .start⟩

/-- The class of a closed bracket expression. Other cases are added before it is negated. -/
def close (b : Bracket) (fold : Bool) : CharClass :=
  .complIf b.negate (.foldIf fold b.content)

/-- A bracket expression right behind its opening. A closing bracket there stands for itself,
if another one follows. -/
def start (rest : List Char) : Except SyntaxError (Bracket × List Char) :=
  let (negate, rest) := match rest with
    | '^' :: rest => (true, rest)
    | rest => (false, rest)
  match rest with
  | ']' :: rest =>
      if rest.contains ']' then .ok ({ opened negate with pending := .code ']'.toNat }, rest)
      else .error .classEmpty
  | rest => .ok (opened negate, rest)

/-- Whether the name of a class may end, by `:]`, before the bracket expression does. -/
def nameCloses : List Char → Bool
  | [] => false
  | ':' :: ']' :: _ => true
  | ']' :: _ => false
  | '\\' :: _ :: rest => nameCloses rest
  | _ :: rest => nameCloses rest

inductive Inner where
  | named (members : CharClass) (rest : List Char)
  | literal
  | nested

/-- Read a class by its name, after `[:`. The bracket stands for itself if the text does not
look like a name. -/
def readNamed (text : List Char) : Except SyntaxError Inner :=
  let (negate, rest) := match text with
    | '^' :: rest => (true, rest)
    | rest => (false, rest)
  let named := Unicode.Property.names.find? fun (name, _) => name.toList.isPrefixOf rest
  match named with
  | some (name, property) =>
      if rest.length < 7 then unnamed rest
      else match rest.drop name.length with
        | ':' :: ']' :: after => .ok (.named (.complIf negate (.property property)) after)
        | _ => .error .unknownBracketName
  | none => unnamed rest
where
  unnamed (rest : List Char) : Except SyntaxError Inner :=
    let skipped := (rest.take 21).takeWhile fun c => c != ':' && c != ']'
    match rest.drop skipped.length with
    | ':' :: ']' :: _ => .error .unknownBracketName
    | _ => .ok .literal

/-- What an opening bracket stands for, by the text behind it. -/
def readInner : List Char → Except SyntaxError Inner
  | ':' :: name => if nameCloses name then readNamed name else .ok .nested
  | _ => .ok .nested

def enter (b : Bracket) : Except SyntaxError Bracket :=
  match b.pending with
  | .rangeFrom _ => .error .rangeOpen
  | _ => .ok b.settle

/-- Read on inside a bracket expression. `outer` holds the expressions around it, and `fuel`
bounds the number of steps, each of which reads at least one character. -/
def read (fold : Bool) : (fuel : Nat) → Bracket → (outer : List Bracket) → List Char →
    Except SyntaxError (CharClass × List Char)
  | 0, _, _, _ => .error .classUnclosed
  | _ + 1, _, _, [] => .error .classUnclosed
  | _ + 1, _, _, ['\\'] => .error .endAtEscape
  | _ + 1, b, [], ']' :: rest => .ok (b.close fold, rest)
  | fuel + 1, b, parent :: outer, ']' :: rest =>
      read fold fuel (parent.add (b.close false) .done) outer rest
  | fuel + 1, b, outer, '[' :: rest => do
      match ← readInner rest with
      | .named members rest => read fold fuel (← b.addClass members) outer rest
      | .literal => read fold fuel (← b.addCode '['.toNat) outer rest
      | .nested =>
          let parent ← b.enter
          let (inner, rest) ← start rest
          read fold fuel inner (parent :: outer) rest
  | fuel + 1, b, outer, '&' :: '&' :: rest => read fold fuel b.conjoin outer rest
  | fuel + 1, b, outer, '-' :: rest => do
      read fold fuel (← b.addHyphen rest) outer rest
  | fuel + 1, b, outer, '\\' :: c :: rest => do
      match shorthand? c with
      | some members => read fold fuel (← b.addClass members) outer rest
      | none =>
          let (code, rest) ← if c = 'b' then pure (0x08, rest) else readEscapedCode c rest
          read fold fuel (← b.addCode code) outer rest
  | fuel + 1, b, outer, c :: rest => do
      read fold fuel (← b.addCode c.toNat) outer rest

def readClass (fold : Bool) (text : List Char) : Except SyntaxError (CharClass × List Char) := do
  let (b, rest) ← start text
  read fold (rest.length + 1) b [] rest

end Bracket

end Highlight.Regex
