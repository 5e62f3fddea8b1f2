import Highlight.Scan.Hit
import Highlight.Tree.Node

/-!
Rules in the course of a scan. A lane remembers the first hit behind the place of its last
search, which answers for all places up to it, so that no text is searched twice.
-/

namespace Highlight

inductive Fault where
  | cut
  | range
deriving DecidableEq

/-- Tokenize a text that stands at an offset of a larger one. -/
abbrev Tokenizer : Type :=
  (base : Nat) → (text : List Char) → Except Fault (List Node)

/-- One pattern of a grammar, as far as scanning is concerned. -/
structure Rule where
  token : String
  label : Option String
  global : Bool
  find : Cursor → Option Hit
  inside : Option Tokenizer

/-- What has been found out about the hits of a rule. -/
inductive Slot where
  | unknown
  /-- The first hit from the place of the last search on. -/
  | next (hit : Hit)
  /-- There is no hit from the place of the last search on. -/
  | exhausted
deriving DecidableEq

/-- A rule in the course of a scan: what is known about its hits, and the offsets from which
they were searched, newest first. -/
structure Lane where
  rule : Rule
  slot : Slot
  searches : List Nat

namespace Lane

def ofRule (rule : Rule) : Lane :=
  ⟨rule, .unknown, []⟩

def search (lane : Lane) (c : Cursor) : Lane :=
  let slot := match lane.rule.find c with
    | some hit => .next hit
    | none => .exhausted
  { lane with slot := slot, searches := c.offset :: lane.searches }

/-- Search only if what is known says nothing about the hits from a place on. -/
def refresh (lane : Lane) (c : Cursor) : Lane :=
  match lane.slot with
  | .exhausted => lane
  | .next hit => if c.offset ≤ hit.start then lane else lane.search c
  | .unknown => lane.search c

/-- The known hit, if it starts at a place and leaves text for a token. -/
def hitAt? (lane : Lane) (c : Cursor) : Option Hit :=
  match lane.slot with
  | .next hit => if hit.start = c.offset ∧ hit.emits then some hit else none
  | _ => none

theorem hitAt?_start {lane : Lane} {c : Cursor} {hit : Hit} (h : lane.hitAt? c = some hit) :
    hit.start = c.offset ∧ hit.contextEnd < hit.stop := by
  unfold hitAt? at h
  split at h
  · split at h
    next hcond =>
      cases h
      exact ⟨hcond.1, Hit.emits_iff.mp hcond.2⟩
    next => simp at h
  · simp at h

end Lane

end Highlight
