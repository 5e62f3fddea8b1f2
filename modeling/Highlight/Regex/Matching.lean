import Highlight.Regex.Expr
import Highlight.Text.Cursor

/-!
How expressions match. A matcher is given what is to follow it, and tries its own ways in order
until what follows succeeds: the first success is the match. Searching means to try at one place
after the other (`Expr.search?`).
-/

namespace Highlight.Regex

/-- The text between two places, as a group captured it. -/
structure Capture where
  first : Cursor
  last : Cursor

namespace Capture

def text (capture : Capture) : List Char :=
  ((capture.first.readTo? capture.last.offset).map (·.1)).getD []

end Capture

/-- How far a match has come: the place reached, what the groups hold, newest first, and the
place at which the match was told to begin. -/
structure Progress where
  place : Cursor
  groups : List (Nat × Capture)
  keep : Option Cursor

namespace Progress

def ofPlace (place : Cursor) : Progress :=
  ⟨place, [], none⟩

def capture? (p : Progress) (number : Nat) : Option Capture :=
  p.groups.lookup number

/-- A group that opens holds nothing until it closes. -/
def opened (p : Progress) (number : Nat) : Progress :=
  { p with groups := p.groups.filter (·.1 != number) }

def closed (p : Progress) (number : Nat) (first : Cursor) : Progress :=
  { p with groups := (number, ⟨first, p.place⟩) :: p.groups }

def moved (p : Progress) (place : Cursor) : Progress :=
  { p with place := place }

end Progress

def codeBefore? (c : Cursor) : Option Nat :=
  c.before.head?.map Char.toNat

def codeAfter? (c : Cursor) : Option Nat :=
  c.after.head?.map Char.toNat

def isWordAt (code : Option Nat) : Bool :=
  code.any Unicode.isWord

/-- Whether a place meets a condition, in a search that started at the offset `origin`. -/
def Anchor.holds (origin : Nat) (c : Cursor) : Anchor → Bool
  | .textStart => c.before.isEmpty
  | .textEnd => c.after.isEmpty
  | .lastLineEnd => c.after.isEmpty || c.after == ['\n']
  | .lineStart => c.before.isEmpty || (c.before.head? == some '\n' && !c.after.isEmpty)
  | .lineEnd => c.after.isEmpty || c.after.head? == some '\n'
  | .wordEdge => isWordAt (codeBefore? c) != isWordAt (codeAfter? c)
  | .noWordEdge => isWordAt (codeBefore? c) == isWordAt (codeAfter? c)
  | .searchStart => c.offset == origin

/-- Whether two characters are the same, or the same but for their case. Characters are compared
one by one, so that none is the same as several others together (`ß` is not `ss`). -/
def sameChar (fold : Bool) (c d : Char) : Bool :=
  c == d || (fold && Unicode.fold c.toNat == Unicode.fold d.toNat)

/-- The place behind `text`, if `text` stands at `c`. -/
def readText? (fold : Bool) : List Char → Cursor → Option Cursor
  | [], c => some c
  | char :: rest, c =>
      match c.next? with
      | some (found, d) => if sameChar fold char found then readText? fold rest d else none
      | none => none

/-- A way to match: from the progress made so far, to the outcome of the first way to go on
that satisfies what follows. -/
abbrev Matcher : Type :=
  Progress → (Progress → Option Progress) → Option Progress

namespace Matcher

def times (m : Matcher) : Nat → Matcher
  | 0, p, next => next p
  | count + 1, p, next => m p fun q => times m count q next

/-- Match at most `count` times, as often as possible or as rarely. -/
def upTo (m : Matcher) (greedy : Bool) : Nat → Matcher
  | 0, p, next => next p
  | count + 1, p, next =>
      if greedy then
        (m p fun q => upTo m greedy count q next) <|> next p
      else
        next p <|> (m p fun q => upTo m greedy count q next)

/-- Match any number of times, as often as possible or as rarely. A round that moves nothing
is the last. -/
def star (m : Matcher) (greedy : Bool) (p : Progress) (next : Progress → Option Progress) :
    Option Progress :=
  let again := fun (_ : Unit) => m p fun q =>
    if _h : q.place.left < p.place.left then star m greedy q next else next q
  if greedy then again () <|> next p else next p <|> again ()
termination_by p.place.left

end Matcher

def Expr.run (origin : Nat) : Expr → Matcher
  | .empty, p, next => next p
  | .one of, p, next =>
      match p.place.next? with
      | some (c, place) => if of.contains c.toNat then next (p.moved place) else none
      | none => none
  | .seq a b, p, next => a.run origin p fun q => b.run origin q next
  | .alt a b, p, next => a.run origin p next <|> b.run origin p next
  | .group number body, p, next =>
      body.run origin (p.opened number) fun q => next (q.closed number p.place)
  | .atomic body, p, next => (body.run origin p some).bind next
  | .ahead negate body, p, next =>
      match body.run origin p some, negate with
      | some q, false => next (q.moved p.place)
      | none, true => next p
      | _, _ => none
  | .behind negate body, p, next =>
      let ending := p.place.backward.findSome? fun first =>
        body.run origin (p.moved first) fun q =>
          if q.place.offset = p.place.offset then some q else none
      match ending, negate with
      | some q, false => next (q.moved p.place)
      | none, true => next p
      | _, _ => none
  | .anchor condition, p, next => if condition.holds origin p.place then next p else none
  | .backref numbers fold, p, next =>
      match numbers.findSome? p.capture? with
      | some capture => (readText? fold capture.text p.place).bind fun place => next (p.moved place)
      | none => none
  | .repeated body least most greedy, p, next =>
      Matcher.times (body.run origin) least p fun q =>
        match most with
        | none => Matcher.star (body.run origin) greedy q next
        | some most => Matcher.upTo (body.run origin) greedy (most - least) q next
  | .keep, p, next => next { p with keep := some p.place }

/-- A match: where it begins and ends, and what the groups hold. -/
structure Match where
  start : Nat
  stop : Nat
  start_le_stop : start ≤ stop
  groups : List (Nat × Capture)

namespace Match

/-- The match between the place where it was tried and the progress made. It begins where it
was told to, but never outside these two. -/
def ofProgress (tried : Cursor) (p : Progress) : Match :=
  let wanted := match p.keep with
    | some place => max tried.offset place.offset
    | none => tried.offset
  ⟨min wanted p.place.offset, p.place.offset, Nat.min_le_right _ _, p.groups⟩

def groupEnd? (m : Match) (number : Nat) : Option Nat :=
  (m.groups.lookup number).map (·.last.offset)

end Match

namespace Expr

def matchAt? (e : Expr) (origin : Nat) (c : Cursor) : Option Match :=
  (e.run origin (.ofPlace c) some).map (Match.ofProgress c)

/-- The match at the first place from `c` on that has one, in a search that started at the
offset `origin`. -/
def searchFrom? (e : Expr) (origin : Nat) (c : Cursor) : Option Match :=
  match e.matchAt? origin c, _h : c.next? with
  | some m, _ => some m
  | none, some (_, d) => e.searchFrom? origin d
  | none, none => none
termination_by c.after.length
decreasing_by exact Cursor.length_after_next? ‹_›

/-- The first match from `c` on. The whole text around `c` is in sight. -/
def search? (e : Expr) (c : Cursor) : Option Match :=
  e.searchFrom? c.offset c

theorem searchFrom?_eq_findSome? (e : Expr) (origin : Nat) (c : Cursor) :
    e.searchFrom? origin c = c.onward.findSome? (e.matchAt? origin) := by
  fun_induction Cursor.onward c with
  | case1 c hnext =>
      rw [searchFrom?]
      cases hmatch : e.matchAt? origin c with
      | some m => simp [hmatch]
      | none => split <;> simp_all
  | case2 c char d hnext ih =>
      rw [searchFrom?]
      cases hmatch : e.matchAt? origin c with
      | some m => simp [hmatch]
      | none => split <;> simp_all

end Expr

end Highlight.Regex
