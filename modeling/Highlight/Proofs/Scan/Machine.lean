import Highlight.Proofs.Failure
import Highlight.Proofs.Scan.Rules
import Highlight.Proofs.Tree.Spelling
import Mathlib.Logic.Relation

/-!
Tokenizing step by step. A frame is a scan of one text by one grammar, with the nodes made so far;
the frames of enclosing texts wait below it for the children of a token. A step is one iteration of
a loop of the scan, and everything that it takes for granted is checked: that parts of a text are
cut at characters and in order, that offsets fit, and that rules are there. What a step can do is
said once (`Move.of_step`).
-/

namespace Highlight.Machine

/-- What would go wrong in a step. -/
inductive Slip where
  /-- A part of a text whose ends are out of order or not between characters. -/
  | part
  /-- An offset of more than 32 bits, which would be cut down. -/
  | truncated
  | reversed
  /-- An offset that lies before the place of its text. -/
  | underflow
  | index
deriving DecidableEq

def part (text : List Char) (start stop : Nat) : Except Slip (List Char) :=
  if start ≤ stop then
    match Text.slice? text start stop with
    | some middle => .ok middle
    | none => .error .part
  else
    .error .part

theorem part_eq_ok_iff {text middle : List Char} {start stop : Nat} :
    part text start stop = .ok middle ↔
      ∃ front back, text = front ++ middle ++ back ∧ Text.width front = start ∧
        start + Text.width middle = stop := by
  constructor
  · intro h
    unfold part at h
    split at h
    next hle =>
      split at h
      next found hslice =>
        cases h
        obtain ⟨⟨front, rest⟩, hfront, hslice⟩ := Option.bind_eq_some_iff.mp hslice
        obtain ⟨⟨found, back⟩, hmiddle, heq⟩ := Option.bind_eq_some_iff.mp hslice
        cases heq
        obtain ⟨rfl, rfl⟩ := Text.split?_eq_some_iff.mp hfront
        obtain ⟨rfl, hwidth⟩ := Text.split?_eq_some_iff.mp hmiddle
        exact ⟨front, back, by simp, rfl, by omega⟩
      next => cases h
    next => cases h
  · rintro ⟨front, back, rfl, rfl, rfl⟩
    simp only [part, Nat.le_add_right, if_true, Text.slice?_append]

theorem le_width_of_part_eq_ok {text middle : List Char} {start stop : Nat}
    (h : part text start stop = .ok middle) : stop ≤ Text.width text := by
  obtain ⟨front, back, rfl, rfl, rfl⟩ := part_eq_ok_iff.mp h
  simp

def place (text : List Char) (offset : Nat) : Except Slip Cursor :=
  match (Cursor.start text).readTo? offset with
  | some (_, c) => .ok c
  | none => .error .part

theorem offset_of_place_eq_ok {text : List Char} {offset : Nat} {c : Cursor}
    (h : place text offset = .ok c) : c.offset = offset := by
  unfold place at h
  split at h
  next front d hread =>
    cases h
    exact Cursor.offset_of_readTo? hread
  next => cases h

def exactRange (start stop : Nat) : Except Slip TextRange :=
  if start < UInt32.size ∧ stop < UInt32.size then
    match TextRange.ofOffsets? start stop with
    | some range => .ok range
    | none => .error .reversed
  else
    .error .truncated

/-- An offset in the whole text as one in a text that stands at `base`. -/
def offsetIn (base offset : Nat) : Except Slip Nat :=
  if base ≤ offset then .ok (offset - base) else .error .underflow

def literalAt (text : List Char) (base start stop : Nat) : Except Slip Node := do
  let literal ← part text start stop
  let range ← exactRange (base + start) (base + stop)
  return .literal (String.ofList literal) range

theorem le_width_of_literalAt_eq_ok {text : List Char} {base start stop : Nat} {node : Node}
    (h : literalAt text base start stop = .ok node) : stop ≤ Text.width text := by
  obtain ⟨literal, hpart, -⟩ := exists_of_bind_eq_ok h
  exact le_width_of_part_eq_ok hpart

/-- Add literal text to nodes, newest first. A literal that ends where it starts takes it in. -/
def pushLiteral (text : List Char) (base start stop : Nat) :
    List Node → Except Slip (List Node)
  | .literal before range :: nodes => do
      let previous ← offsetIn base range.start.toNat
      if previous + Text.width before.toList = start then
        return (← literalAt text base previous stop) :: nodes
      else
        return (← literalAt text base start stop) :: .literal before range :: nodes
  | nodes => do return (← literalAt text base start stop) :: nodes

theorem le_width_of_pushLiteral_eq_ok {text : List Char} {base start stop : Nat}
    {nodes nodes' : List Node} (h : pushLiteral text base start stop nodes = .ok nodes') :
    stop ≤ Text.width text := by
  unfold pushLiteral at h
  split at h
  next before range rest =>
    obtain ⟨previous, -, h⟩ := exists_of_bind_eq_ok h
    split at h
    next =>
      obtain ⟨node, hnode, -⟩ := exists_of_bind_eq_ok h
      exact le_width_of_literalAt_eq_ok hnode
    next =>
      obtain ⟨node, hnode, -⟩ := exists_of_bind_eq_ok h
      exact le_width_of_literalAt_eq_ok hnode
  next =>
    obtain ⟨node, hnode, -⟩ := exists_of_bind_eq_ok h
    exact le_width_of_literalAt_eq_ok hnode

variable [Regex.Searcher]

/-- A pattern of a grammar in the course of a scan, with what is known about its hits. -/
structure Seat (g : Grammar) where
  token : Token
  pattern : Pattern
  token_mem : token ∈ g.tokens
  pattern_mem : pattern ∈ token.patterns
  lane : Lane
  rule_eq : lane.rule = pattern.rule token.name

namespace Seat

variable {g : Grammar}

def refresh (seat : Seat g) (c : Cursor) : Seat g :=
  { seat with
    lane := seat.lane.refresh c
    rule_eq := by rw [Lane.rule_refresh, seat.rule_eq] }

/-- Ask seats in order until one has a hit at a place. -/
def askAll (c : Cursor) : List (Seat g) → List (Seat g) × Option (Nat × Seat g × Hit)
  | [] => ([], none)
  | seat :: rest =>
      match (seat.refresh c).lane.hitAt? c with
      | some hit => (seat.refresh c :: rest, some (0, seat.refresh c, hit))
      | none =>
          let (rest, found) := askAll c rest
          (seat.refresh c :: rest, found.map fun (i, other, hit) => (i + 1, other, hit))

end Seat

/-- The patterns of a grammar in order, with nothing known about their hits. -/
def seatsOf (g : Grammar) : List (Seat g) :=
  g.tokens.attach.flatMap fun token => token.val.patterns.attach.map fun pattern =>
    ⟨token.val, pattern.val, token.property, pattern.property,
      .ofRule (pattern.val.rule token.val.name), rfl⟩

/-- The scan of a text by a grammar. -/
structure Frame where
  grammar : Grammar
  base : Nat
  text : List Char
  seats : List (Seat grammar)
  /-- The nodes made so far, newest first. -/
  nodes : List Node
  cursor : Nat
  /-- The position of the global rule that is to be tried again, if one is. -/
  again : Option Nat

/-- A frame that waits for the children of a token, of a hit of the rule at an index. -/
structure Pending where
  frame : Frame
  index : Nat
  seat : Seat frame.grammar
  hit : Hit
  text : List Char

inductive State where
  | scanning (frame : Frame) (outer : List Pending)
  | returning (nodes : List Node) (outer : List Pending)

def Frame.behind (f : Frame) (i : Nat) (seat : Seat f.grammar) (hit : Hit) (matched : Matched) :
    Frame :=
  { f with
    nodes := .matched matched :: f.nodes
    cursor := hit.stop
    again := if seat.pattern.global then some i else none }

def Frame.start (g : Grammar) (base : Nat) (text : List Char) : Frame :=
  ⟨g, base, text, seatsOf g, [], 0, none⟩

namespace Pending

/-- Add the token with its children, and go on behind it. -/
def close (p : Pending) (children : List Node) : Except Slip Frame := do
  let range ← exactRange (p.frame.base + p.hit.contextEnd) (p.frame.base + p.hit.stop)
  return p.frame.behind p.index p.seat p.hit
    ⟨p.seat.token.name, p.seat.pattern.label, String.ofList p.text, range, children⟩

/-- Tokenize the text of the token by the grammar inside the pattern, if there is one. -/
def enter (p : Pending) (outer : List Pending) : Except Slip State :=
  match p.seat.pattern.inside with
  | some h => .ok (.scanning (.start h (p.frame.base + p.hit.contextEnd) p.text) (p :: outer))
  | none => do return .scanning (← p.close []) outer

end Pending

namespace Frame

/-- Ask the global rule that is to be tried again, or else all rules in order. -/
def ask (f : Frame) (c : Cursor) :
    Except Slip (List (Seat f.grammar) × Option (Nat × Seat f.grammar × Hit)) :=
  match f.again with
  | none => .ok (Seat.askAll c f.seats)
  | some i =>
      match f.seats[i]? with
      | none => .error .index
      | some seat =>
          .ok (f.seats.set i (seat.refresh c),
            ((seat.refresh c).lane.hitAt? c).map fun hit => (i, seat.refresh c, hit))

def addContext (f : Frame) (hit : Hit) : Except Slip (List Node) :=
  if hit.start < hit.contextEnd then
    pushLiteral f.text f.base hit.start hit.contextEnd f.nodes
  else
    .ok f.nodes

def take (f : Frame) (i : Nat) (seat : Seat f.grammar) (hit : Hit) (outer : List Pending) :
    Except Slip State := do
  let nodes ← f.addContext hit
  let text ← part f.text hit.contextEnd hit.stop
  Pending.enter ⟨{ f with nodes := nodes }, i, seat, hit, text⟩ outer

def skip (f : Frame) : Except Slip Frame := do
  let rest ← part f.text f.cursor (Text.width f.text)
  let stop := f.cursor + (rest.head?.map Char.utf8Size).getD 1
  let nodes ← pushLiteral f.text f.base f.cursor stop f.nodes
  return { f with nodes := nodes, cursor := stop }

end Frame

/-- One iteration of a loop, or the return to an enclosing one. There is none after the end. -/
def step : State → Except Slip (Option State)
  | .returning _ [] => .ok none
  | .returning nodes (p :: outer) => do return some (.scanning (← p.close nodes) outer)
  | .scanning f outer =>
      if f.again = none ∧ Text.width f.text ≤ f.cursor then
        .ok (some (.returning f.nodes.reverse outer))
      else do
        let c ← place f.text f.cursor
        match ← f.ask c with
        | (seats, some (i, seat, hit)) =>
            return some (← Frame.take { f with seats := seats } i seat hit outer)
        | (seats, none) =>
            if f.again.isSome then
              return some (.scanning { f with seats := seats, again := none } outer)
            else
              return some (.scanning (← Frame.skip { f with seats := seats }) outer)

def State.initial (g : Grammar) (text : String) : State :=
  .scanning (.start g 0 text.toList) []

theorem Seat.start_of_askAll {g : Grammar} {c : Cursor} {seats seats' : List (Seat g)} {i : Nat}
    {seat : Seat g} {hit : Hit} (h : askAll c seats = (seats', some (i, seat, hit))) :
    hit.start = c.offset ∧ hit.contextEnd < hit.stop := by
  induction seats generalizing seats' i with
  | nil => cases h
  | cons first rest ih =>
      unfold askAll at h
      split at h
      next found hfound =>
        cases h
        exact Lane.hitAt?_start hfound
      next =>
        obtain ⟨-, hfound⟩ := Prod.mk.inj h
        obtain ⟨⟨j, other, found⟩, hrest, heq⟩ := Option.map_eq_some_iff.mp hfound
        cases heq
        exact ih (Prod.ext rfl hrest)

theorem Frame.start_of_ask {f : Frame} {c : Cursor} {seats : List (Seat f.grammar)} {i : Nat}
    {seat : Seat f.grammar} {hit : Hit} (h : f.ask c = .ok (seats, some (i, seat, hit))) :
    hit.start = c.offset ∧ hit.contextEnd < hit.stop := by
  unfold ask at h
  split at h
  next => exact Seat.start_of_askAll (Except.ok.inj h)
  next j hagain =>
    split at h
    next => cases h
    next other hother =>
      obtain ⟨-, hfound⟩ := Prod.mk.inj (Except.ok.inj h)
      obtain ⟨found, hhit, heq⟩ := Option.map_eq_some_iff.mp hfound
      cases heq
      exact Lane.hitAt?_start hhit

/-- Another frame for the same text and grammar, which has come to an offset. -/
structure Frame.At (f : Frame) (cursor : Nat) (f' : Frame) : Prop where
  grammar_eq : f'.grammar = f.grammar
  text_eq : f'.text = f.text
  cursor_eq : f'.cursor = cursor

/-- What a step can do. -/
inductive Move : State → State → Prop
  /-- An iteration of the main loop, or of the loop of a global rule. -/
  | iterate {f f' : Frame} {outer : List Pending} (at_cursor : f.At f'.cursor f')
      (lt : f.cursor < f'.cursor) (le : f'.cursor ≤ Text.width f.text) :
      Move (.scanning f outer) (.scanning f' outer)
  /-- The loop of a global rule ends. -/
  | leave {f f' : Frame} {outer : List Pending} (again : f.again ≠ none) (left : f'.again = none)
      (at_cursor : f.At f.cursor f') : Move (.scanning f outer) (.scanning f' outer)
  /-- An iteration begins with a hit, whose text is tokenized by the grammar inside the pattern. -/
  | call {f inner : Frame} {p : Pending} {outer : List Pending} {token : Token} {pattern : Pattern}
      (token_mem : token ∈ f.grammar.tokens) (pattern_mem : pattern ∈ token.patterns)
      (inside_eq : pattern.inside = some inner.grammar) (cursor_eq : inner.cursor = 0)
      (waits : f.At f.cursor p.frame) (lt : f.cursor < p.hit.stop)
      (le : p.hit.stop ≤ Text.width f.text) :
      Move (.scanning f outer) (.scanning inner (p :: outer))
  /-- An iteration that waited for the children of a token ends. -/
  | resume {nodes : List Node} {p : Pending} {f : Frame} {outer : List Pending}
      (at_stop : p.frame.At p.hit.stop f) :
      Move (.returning nodes (p :: outer)) (.scanning f outer)
  | finish {f : Frame} {outer : List Pending} (again : f.again = none)
      (done : Text.width f.text ≤ f.cursor) :
      Move (.scanning f outer) (.returning f.nodes.reverse outer)

theorem Pending.at_of_close_eq_ok {p : Pending} {children : List Node} {f : Frame}
    (h : p.close children = .ok f) : p.frame.At p.hit.stop f := by
  obtain ⟨range, -, heq⟩ := exists_of_bind_eq_ok h
  cases heq
  exact ⟨rfl, rfl, rfl⟩

theorem Pending.move_of_enter_eq_ok {f : Frame} {p : Pending} {outer : List Pending} {s : State}
    (hwaits : f.At f.cursor p.frame) (hlt : f.cursor < p.hit.stop)
    (hle : p.hit.stop ≤ Text.width f.text) (h : p.enter outer = .ok s) :
    Move (.scanning f outer) s := by
  unfold enter at h
  split at h
  next inner hinside =>
    cases h
    exact .call (hwaits.grammar_eq ▸ p.seat.token_mem) p.seat.pattern_mem hinside rfl hwaits hlt
      hle
  next =>
    obtain ⟨f', hclose, heq⟩ := exists_of_bind_eq_ok h
    cases heq
    obtain ⟨hgrammar, htext, hcursor⟩ := Pending.at_of_close_eq_ok hclose
    refine .iterate ⟨hgrammar.trans hwaits.grammar_eq, htext.trans hwaits.text_eq, rfl⟩ ?_ ?_
    · rwa [hcursor]
    · rwa [hcursor]

theorem Frame.move_of_take_eq_ok {f : Frame} {seats : List (Seat f.grammar)} {i : Nat}
    {seat : Seat f.grammar} {hit : Hit} {outer : List Pending} {s : State}
    (hlt : f.cursor < hit.stop)
    (h : Frame.take { f with seats := seats } i seat hit outer = .ok s) :
    Move (.scanning f outer) s := by
  obtain ⟨nodes, -, h⟩ := exists_of_bind_eq_ok h
  obtain ⟨text, hpart, h⟩ := exists_of_bind_eq_ok h
  exact Pending.move_of_enter_eq_ok ⟨rfl, rfl, rfl⟩ hlt (le_width_of_part_eq_ok hpart) h

theorem Frame.iterate_of_skip_eq_ok {f : Frame} {seats : List (Seat f.grammar)} {f' : Frame}
    {outer : List Pending} (h : Frame.skip { f with seats := seats } = .ok f') :
    Move (.scanning f outer) (.scanning f' outer) := by
  obtain ⟨rest, -, h⟩ := exists_of_bind_eq_ok h
  obtain ⟨nodes, hpush, heq⟩ := exists_of_bind_eq_ok h
  cases heq
  refine .iterate ⟨rfl, rfl, rfl⟩ ?_ (le_width_of_pushLiteral_eq_ok hpush)
  -- A character takes at least one byte, and where there is none, one byte is skipped.
  cases rest with
  | nil => exact Nat.lt_succ_self _
  | cons char rest => exact Nat.lt_add_of_pos_right (Text.utf8Size_pos char)

theorem Move.of_step {s s' : State} (h : step s = .ok (some s')) : Move s s' := by
  cases s with
  | returning nodes outer =>
      cases outer with
      | nil => cases h
      | cons p outer =>
          obtain ⟨f, hclose, heq⟩ := exists_of_bind_eq_ok h
          cases heq
          exact .resume (Pending.at_of_close_eq_ok hclose)
  | scanning f outer =>
      simp only [step] at h
      -- Either the text is at its end, or a rule has a hit, or none has.
      split at h
      next hdone =>
        cases h
        exact .finish hdone.1 hdone.2
      next hgo =>
        obtain ⟨c, hplace, h⟩ := exists_of_bind_eq_ok h
        obtain ⟨⟨seats, found⟩, hask, h⟩ := exists_of_bind_eq_ok h
        have hoffset := offset_of_place_eq_ok hplace
        split at h
        next seats i seat hit heq =>
          cases heq
          obtain ⟨s, htake, heq⟩ := exists_of_bind_eq_ok h
          cases heq
          obtain ⟨hstart, hemits⟩ := Frame.start_of_ask hask
          have := hit.start_le_contextEnd
          exact Frame.move_of_take_eq_ok (by omega) htake
        next seats heq =>
          cases heq
          split at h
          next hagain =>
            cases h
            exact .leave (by simpa [Option.isSome_iff_ne_none] using hagain) rfl ⟨rfl, rfl, rfl⟩
          next =>
            obtain ⟨f', hskip, heq⟩ := exists_of_bind_eq_ok h
            cases heq
            exact Frame.iterate_of_skip_eq_ok hskip

end Highlight.Machine
