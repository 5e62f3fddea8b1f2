import Highlight.Grammar.Basic

/-!
Hits: matches of patterns, divided into context and token.
-/

namespace Highlight

/-- Where a pattern matches: the text from `start` to `contextEnd` is context, the text from
there to `stop` is the token. -/
structure Hit where
  start : Nat
  contextEnd : Nat
  stop : Nat
  start_le_contextEnd : start ≤ contextEnd
  contextEnd_le_stop : contextEnd ≤ stop
deriving DecidableEq

namespace Hit

def emits (hit : Hit) : Bool :=
  hit.contextEnd < hit.stop

theorem emits_iff {hit : Hit} : hit.emits = true ↔ hit.contextEnd < hit.stop := by
  simp [emits]

/-- Where the context of a match ends. With `lookbehind` that is the end of the first group, if
it took part, but no place outside the match. Otherwise there is no context. -/
def contextEndOf (lookbehind : Bool) (m : Regex.Match) : Nat :=
  match lookbehind, m.groupEnd? 1 with
  | true, some groupEnd => max m.start (min groupEnd m.stop)
  | _, _ => m.start

theorem start_le_contextEndOf (lookbehind : Bool) (m : Regex.Match) :
    m.start ≤ contextEndOf lookbehind m := by
  unfold contextEndOf
  split
  · exact Nat.le_max_left _ _
  · exact Nat.le_refl _

theorem contextEndOf_le_stop (lookbehind : Bool) (m : Regex.Match) :
    contextEndOf lookbehind m ≤ m.stop := by
  unfold contextEndOf
  split
  · exact Nat.max_le.mpr ⟨m.start_le_stop, Nat.min_le_right _ _⟩
  · exact m.start_le_stop

def ofMatch (lookbehind : Bool) (m : Regex.Match) : Hit :=
  ⟨m.start, contextEndOf lookbehind m, m.stop, start_le_contextEndOf lookbehind m,
    contextEndOf_le_stop lookbehind m⟩

end Hit

/-- A way to search: what match of a regex, if any, is found from a place on. Unless another is
given, it is the search of this library. -/
class Regex.Searcher where
  find? : Regex → Cursor → Option Regex.Match

instance Regex.searcher : Regex.Searcher :=
  ⟨Regex.search?⟩

variable [Regex.Searcher]

def Regex.hit? (r : Regex) (lookbehind : Bool) (c : Cursor) : Option Hit :=
  (Regex.Searcher.find? r c).map (Hit.ofMatch lookbehind)

def Pattern.hit? (p : Pattern) (c : Cursor) : Option Hit :=
  p.regex.hit? p.lookbehind c

end Highlight
