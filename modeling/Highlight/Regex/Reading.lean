import Highlight.Regex.Bracket
import Highlight.Regex.Level
import Highlight.Regex.Quantifier

/-!
Reading a regex. Each step reads an item and adds it to the outline; at the end the outline is
closed and its references are checked (`Program.read`).
-/

namespace Highlight.Regex

structure Program where
  expr : Expr
  groups : Nat
deriving DecidableEq

namespace Outline

/-- Skip a comment group, after its number sign. -/
def skipComment : List Char → Except SyntaxError (List Char)
  | [] => .error .endInGroup
  | ')' :: rest => .ok rest
  | '\\' :: _ :: rest => skipComment rest
  | _ :: rest => skipComment rest

/-- Read switches up to the sign that ends them. The flag tells whether a colon does, so that
a group follows. -/
def readSwitches (modes : Modes) (on : Bool) :
    List Char → Except SyntaxError (Modes × Bool × List Char)
  | [] => .error .endInGroup
  | ')' :: rest => .ok (modes, false, rest)
  | ':' :: rest => .ok (modes, true, rest)
  | '-' :: rest => readSwitches modes false rest
  | 'i' :: rest => readSwitches { modes with ignoreCase := on } on rest
  | 'm' :: rest => readSwitches { modes with dotAll := on } on rest
  | 'x' :: rest => readSwitches { modes with extended := on } on rest
  | _ => .error .undefinedOption

def readName (ending : Char) (text : List Char) :
    Except SyntaxError (List Char × List Char) :=
  let name := text.takeWhile fun c => c != ending && c != ')'
  match name, text.drop name.length with
  | [], [] => .error .emptyName
  | [], next :: rest =>
      if next = ending then .error .emptyName
      else .error (.invalidName (String.ofList (next :: rest)))
  | name, next :: rest =>
      if next = ending then .ok (name, rest) else .error (.invalidName (String.ofList name))
  | name, [] => .error (.invalidName (String.ofList name))

/-- A group may be named by a word that does not begin with a digit. -/
def checkName (name : List Char) : Except SyntaxError String :=
  let text := String.ofList name
  match name with
  | [] => .error .emptyName
  | first :: _ =>
      if Unicode.digit.contains first.toNat || first = '-' then .error (.invalidName text)
      else if name.all fun c => Unicode.isWord c.toNat then .ok text
      else .error (.invalidNameCharacter text)

/-- Read what follows an opening parenthesis. Absent groups (`(?~..)`) and conditions (`(?(1)..)`)
are not read: they are refused, like options that there are none of. -/
def readGroup (o : Outline) : List Char → Except SyntaxError (Outline × List Char)
  | '?' :: [] => .error .endInGroup
  | '?' :: '#' :: rest => do return (o, ← skipComment rest)
  | '?' :: ':' :: rest => .ok (o.enter .plain o.modes, rest)
  | '?' :: '>' :: rest => .ok (o.enter .atomic o.modes, rest)
  | '?' :: '=' :: rest => .ok (o.enter (.ahead false) o.modes, rest)
  | '?' :: '!' :: rest => .ok (o.enter (.ahead true) o.modes, rest)
  | '?' :: '<' :: [] => .error .groupUnclosed
  | '?' :: '<' :: '=' :: rest => .ok (o.enter (.behind false) o.modes, rest)
  | '?' :: '<' :: '!' :: rest => .ok (o.enter (.behind true) o.modes, rest)
  | '?' :: '<' :: rest => named '>' rest
  | '?' :: '\'' :: rest => named '\'' rest
  | '?' :: c :: rest => do
      unless "-imx".toList.contains c do throw .undefinedOption
      let (modes, isGroup, rest) ← readSwitches o.modes true (c :: rest)
      return (o.enter (if isGroup then .plain else .switches) modes, rest)
  | rest => .ok (o.enterGroup none, rest)
where
  named (ending : Char) (rest : List Char) : Except SyntaxError (Outline × List Char) := do
    let (name, rest) ← readName ending rest
    return (o.enterGroup (some (← checkName name)), rest)

def addClass (o : Outline) (members : CharClass) : Outline :=
  o.add (.one members)

def addCode (o : Outline) (code : Nat) : Outline :=
  o.addClass (.foldIf o.modes.ignoreCase (.single code))

def addReference (o : Outline) (number : Nat) : Outline :=
  { o.add (.backref [number] o.modes.ignoreCase) with numbered := true }

/-- Read a reference to a group by name, after the sign that opens it. Of several groups of
one name, the last is asked first. -/
def readReference (o : Outline) (ending : Char) (text : List Char) :
    Except SyntaxError (Outline × List Char) := do
  let (name, rest) ← readName ending text
  match name with
  | '-' :: digits =>
      let (count, back, after) := readDecimal digits
      if count = 0 || !after.isEmpty then throw (.invalidName (String.ofList name))
      if back = 0 || o.groups < back then throw .invalidReference
      return (o.addReference (o.groups + 1 - back), rest)
  | _ =>
      let (count, number, after) := readDecimal name
      if 0 < count then
        if !after.isEmpty then throw (.invalidName (String.ofList name))
        return (o.addReference number, rest)
      let name ← checkName name
      match o.names.filterMap fun (known, number) => if known = name then some number else none with
      | [] => throw (.undefinedName name)
      | numbers => return (o.add (.backref numbers o.modes.ignoreCase), rest)

/-- One line break: a carriage return with a newline, or a single character. -/
def lineBreak : Expr :=
  .atomic (.alt (.seq (.one (.single 0x0D)) (.one (.single 0x0A))) (.one CharClass.lineBreak))

/-- Read what follows a backslash. A number refers to a group if it has one digit or that many
groups have been met; otherwise its octal digits name a character. Calls of groups (`\g<..>`) and
clusters of characters (`\X`, `\y`) are not read: their letters stand for themselves. -/
def readEscape (o : Outline) : List Char → Except SyntaxError (Outline × List Char)
  | [] => .error .endAtEscape
  | 'b' :: rest => .ok (o.add (.anchor .wordEdge), rest)
  | 'B' :: rest => .ok (o.add (.anchor .noWordEdge), rest)
  | 'A' :: rest => .ok (o.add (.anchor .textStart), rest)
  | 'z' :: rest => .ok (o.add (.anchor .textEnd), rest)
  | 'Z' :: rest => .ok (o.add (.anchor .lastLineEnd), rest)
  | 'G' :: rest => .ok (o.add (.anchor .searchStart), rest)
  | 'K' :: rest => .ok (o.add .keep, rest)
  | 'R' :: rest => .ok (o.add lineBreak, rest)
  | 'k' :: '<' :: rest => o.readReference '>' rest
  | 'k' :: '\'' :: rest => o.readReference '\'' rest
  | c :: rest =>
      match shorthand? c with
      | some members => .ok (o.addClass members, rest)
      | none =>
          let (count, number, after) := readDecimal (c :: rest)
          if c != '0' && 0 < count && (number ≤ o.groups || number ≤ 9) then
            .ok (o.addReference number, after)
          else do
            let (code, rest) ← readEscapedCode c rest
            return (o.addCode code, rest)

def readItem (o : Outline) (c : Char) (rest : List Char) :
    Except SyntaxError (Outline × List Char) :=
  match c with
  | '\\' => o.readEscape rest
  | '(' => o.readGroup rest
  | ')' => do return (← o.leave, rest)
  | '|' => .ok (o.bar, rest)
  | '.' =>
      .ok (o.addClass (.compl (if o.modes.dotAll then .none else .single 0x0A)), rest)
  | '^' => .ok (o.add (.anchor (if o.modes.lines then .lineStart else .textStart)), rest)
  | '$' => .ok (o.add (.anchor (if o.modes.lines then .lineEnd else .lastLineEnd)), rest)
  | '[' => do
      let (members, rest) ← Bracket.readClass o.modes.ignoreCase rest
      return (o.addClass members, rest)
  | c => .ok (o.addCode c.toNat, rest)

/-- Read one step further: a blank or comment between the items, a quantifier or an item. -/
def step (o : Outline) (c : Char) (rest : List Char) :
    Except SyntaxError (Outline × List Char) := do
  if o.modes.extended then
    if Unicode.space.contains c.toNat then return (o, rest)
    if c = '#' then return (o, (rest.dropWhile (· != '\n')).drop 1)
  match ← Quantifier.read? (c :: rest) with
  | some (quantifier, rest) => return (← o.mapLast quantifier.apply, rest)
  | none => o.readItem c rest

/-- Read to the end. `fuel` bounds the number of steps, each of which reads at least one
character. -/
def readAll : (fuel : Nat) → Outline → List Char → Except SyntaxError Outline
  | _, o, [] => .ok o
  | 0, o, _ :: _ => .ok o
  | fuel + 1, o, c :: rest => do
      let (o, rest) ← o.step c rest
      readAll fuel o rest

end Outline

/-- Give groups other numbers. A group without one no longer captures. -/
def Expr.renumber (number? : Nat → Option Nat) : Expr → Expr
  | .seq a b => .seq (a.renumber number?) (b.renumber number?)
  | .alt a b => .alt (a.renumber number?) (b.renumber number?)
  | .group number body =>
      match number? number with
      | some number => .group number (body.renumber number?)
      | none => body.renumber number?
  | .atomic body => .atomic (body.renumber number?)
  | .ahead negate body => .ahead negate (body.renumber number?)
  | .behind negate body => .behind negate (body.renumber number?)
  | .backref numbers fold => .backref (numbers.filterMap number?) fold
  | .repeated body least most greedy => .repeated (body.renumber number?) least most greedy
  | .empty => .empty
  | .one of => .one of
  | .anchor condition => .anchor condition
  | .keep => .keep

namespace Program

/-- Close the outline of a regex. Where groups have names, only those capture, and a reference
by number is refused; elsewhere it must refer to a group. -/
def ofOutline (o : Outline) : Except SyntaxError Program := do
  let expr ← o.finish
  if o.names.isEmpty then
    if expr.references.all (· ≤ o.groups) then return ⟨expr, o.groups⟩
    else throw .invalidReference
  else if o.numbered then
    throw .numberedReference
  else
    let named := (o.names.map (·.2)).reverse
    return ⟨expr.renumber fun number => (named.idxOf? number).map (· + 1), named.length⟩

def read (modes : Modes) (source : List Char) : Except SyntaxError Program := do
  ofOutline (← Outline.readAll source.length (.start modes) source)

end Program

end Highlight.Regex
