import Highlight.Regex.Expr
import Highlight.Regex.SyntaxError

/-!
The part of a regex that has been read so far, as a stack of open groups.
-/

namespace Highlight.Regex

/-- The switches under which a part of a regex is read. -/
structure Modes where
  ignoreCase : Bool
  dotAll : Bool
  /-- Blanks and comments stand between the items. -/
  extended : Bool
  /-- Line anchors stand for the ends of the lines, not of the text. -/
  lines : Bool
deriving DecidableEq

inductive Opening where
  | capture (number : Nat)
  | plain
  | atomic
  | ahead (negate : Bool)
  | behind (negate : Bool)
  /-- Switches in the middle of a group: the level takes in the rest of the group. -/
  | switches

def Opening.close (body : Expr) : Opening → Expr
  | .capture number => .group number body
  | .plain => body
  | .atomic => .atomic body
  | .ahead negate => .ahead negate body
  | .behind negate => .behind negate body
  | .switches => body

/-- A level of nesting that is still open: the alternatives read so far and the items of the
one being read, both newest first. -/
structure Level where
  opening : Opening
  modes : Modes
  alternatives : List Expr
  items : List Expr

namespace Level

def opened (opening : Opening) (modes : Modes) : Level :=
  ⟨opening, modes, [], []⟩

def add (level : Level) (item : Expr) : Level :=
  { level with items := item :: level.items }

def bar (level : Level) : Level :=
  { level with alternatives := .ofList level.items.reverse :: level.alternatives, items := [] }

def close (level : Level) : Expr :=
  let last := Expr.ofList level.items.reverse
  let body := match level.alternatives.reverse with
    | [] => last
    | first :: others => .choice first (others ++ [last])
  level.opening.close body

end Level

/-- The open levels, innermost first, and the groups met so far, with their names, newest
first. -/
structure Outline where
  top : Level
  below : List Level
  groups : Nat
  names : List (String × Nat)
  /-- A reference by number has been met. -/
  numbered : Bool

namespace Outline

def start (modes : Modes) : Outline :=
  ⟨.opened .plain modes, [], 0, [], false⟩

def modes (o : Outline) : Modes :=
  o.top.modes

def add (o : Outline) (item : Expr) : Outline :=
  { o with top := o.top.add item }

def bar (o : Outline) : Outline :=
  { o with top := o.top.bar }

def enter (o : Outline) (opening : Opening) (modes : Modes) : Outline :=
  { o with top := .opened opening modes, below := o.top :: o.below }

def enterGroup (o : Outline) (name : Option String) : Outline :=
  let number := o.groups + 1
  let names := match name with
    | some name => (name, number) :: o.names
    | none => o.names
  { o.enter (.capture number) o.modes with groups := number, names := names }

/-- Close the levels that switches have opened on top of `top`. -/
def unwind : (top : Level) → (below : List Level) → Level × List Level
  | top, [] => (top, [])
  | top, next :: below =>
      match top.opening with
      | .switches => unwind (next.add top.close) below
      | _ => (top, next :: below)

def leave (o : Outline) : Except SyntaxError Outline :=
  match unwind o.top o.below with
  | (_, []) => .error .groupUnopened
  | (top, next :: below) => .ok { o with top := next.add top.close, below := below }

def finish (o : Outline) : Except SyntaxError Expr :=
  match unwind o.top o.below with
  | (top, []) => .ok top.close
  | (_, _ :: _) => .error .groupUnclosed

def mapLast (o : Outline) (f : Expr → Expr) : Except SyntaxError Outline :=
  match o.top.items with
  | [] => .error .nothingToRepeat
  | item :: items => .ok { o with top := { o.top with items := f item :: items } }

end Outline

end Highlight.Regex
