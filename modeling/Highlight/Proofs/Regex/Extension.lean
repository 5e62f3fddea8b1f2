import Highlight.Proofs.Regex.Progress
import Highlight.Proofs.Text.Reading

/-!
Texts that go on. An expression that neither takes the character with which a text goes on nor asks
for the end of the text matches as it did before (`Expr.run_extend`).
-/

namespace Highlight

namespace Cursor

/-- The same place, if the text goes on. -/
def extend (c : Cursor) (more : List Char) : Cursor where
  before := c.before
  after := c.after ++ more
  offset := c.offset
  left := c.left + more.length
  offset_eq := c.offset_eq
  left_eq := by rw [c.left_eq, List.length_append]

variable {c d : Cursor} {more front : List Char} {char : Char}

@[simp] theorem extend_after : (c.extend more).after = c.after ++ more := rfl

@[simp] theorem extend_offset : (c.extend more).offset = c.offset := rfl

@[simp] theorem text_extend : (c.extend more).text = c.text ++ more :=
  (List.append_assoc _ _ _).symm

theorem start_append (text more : List Char) : start (text ++ more) = (start text).extend more :=
  ext rfl rfl

theorem Reads.extend (h : c.Reads front d) (more : List Char) :
    (c.extend more).Reads front (d.extend more) :=
  ⟨by rw [extend_after, h.after, List.append_assoc, extend_after], h.before⟩

theorem next?_extend (h : c.next? = some (char, d)) (more : List Char) :
    (c.extend more).next? = some (char, d.extend more) :=
  reads_single_iff.mp ((reads_single_iff.mpr h).extend more)

theorem readTo?_extend {stop : Nat} (h : c.readTo? stop = some (front, d)) (more : List Char) :
    (c.extend more).readTo? stop = some (front, d.extend more) := by
  obtain ⟨hafter, hbefore, rfl⟩ := readTo?_eq_some_iff.mp h
  exact (Reads.extend ⟨hafter, hbefore⟩ more).readTo?

end Cursor

namespace Regex

theorem map_orElse {α β : Type} (f : α → β) (a b : Option α) :
    (a <|> b).map f = (a.map f <|> b.map f) := by
  cases a <;> rfl

def Capture.extend (capture : Capture) (more : List Char) : Capture :=
  ⟨capture.first.extend more, capture.last.extend more⟩

namespace Progress

def extend (p : Progress) (more : List Char) : Progress :=
  ⟨p.place.extend more, p.groups.map fun entry => (entry.1, entry.2.extend more),
    p.keep.map (·.extend more)⟩

variable {p : Progress} {more : List Char}

@[simp] theorem extend_place : (p.extend more).place = p.place.extend more := rfl

theorem extend_opened (number : Nat) :
    (p.opened number).extend more = (p.extend more).opened number := by
  simp only [extend, opened, List.filter_map]
  rfl

theorem lookup_extend (number : Nat) :
    (p.extend more).groups.lookup number =
      (p.groups.lookup number).map (·.extend more) := by
  simp only [extend]
  induction p.groups with
  | nil => rfl
  | cons entry groups ih =>
      rw [List.map_cons, List.lookup_cons, List.lookup_cons, ih]
      split <;> rfl

end Progress

/-- What follows comes to the same if the text goes on. -/
def Follows (more : List Char) (next next' : Progress → Option Progress) : Prop :=
  ∀ q : Progress, next' (q.extend more) = (next q).map (·.extend more)

theorem follows_some (more : List Char) : Follows more some some :=
  fun _ => rfl

/-- A matcher comes to the same if the text goes on, at all places or at those inside the text. -/
def Matcher.Overlooks (more : List Char) (inside : Bool) (m : Matcher) : Prop :=
  ∀ p next next', (inside = true → p.place.after ≠ []) → Follows more next next' →
    m (p.extend more) next' = (m p next).map (·.extend more)

namespace Matcher.Overlooks

variable {more : List Char} {m : Matcher} (hm : m.Overlooks more false)

include hm

theorem anywhere {p : Progress} {next next' : Progress → Option Progress}
    (hnext : Follows more next next') :
    m (p.extend more) next' = (m p next).map (·.extend more) :=
  hm p next next' (fun h => nomatch h) hnext

theorem times {next next' : Progress → Option Progress} (hnext : Follows more next next')
    (count : Nat) :
    Follows more (Matcher.times m count · next) (Matcher.times m count · next') := by
  induction count with
  | zero => exact hnext
  | succ count ih => exact fun p => hm.anywhere ih

theorem upTo {next next' : Progress → Option Progress} (hnext : Follows more next next')
    (greedy : Bool) (count : Nat) :
    Follows more (Matcher.upTo m greedy count · next) (Matcher.upTo m greedy count · next') := by
  induction count with
  | zero => exact hnext
  | succ count ih =>
      intro p
      simp only [Matcher.upTo, hm.anywhere ih, hnext p]
      cases greedy with
      | false => exact (map_orElse _ _ _).symm
      | true => exact (map_orElse _ _ _).symm

theorem star {next next' : Progress → Option Progress} (hnext : Follows more next next')
    (greedy : Bool) :
    Follows more (Matcher.star m greedy · next) (Matcher.star m greedy · next') := by
  intro p
  induction hleft : p.place.left using Nat.strongRecOn generalizing p with
  | ind left ih =>
      subst hleft
      have hround : Follows more
          (fun q => if _h : q.place.left < p.place.left then Matcher.star m greedy q next
            else next q)
          (fun q => if _h : q.place.left < (p.extend more).place.left then
              Matcher.star m greedy q next'
            else next' q) := by
        intro q
        have hiff : (q.extend more).place.left < (p.extend more).place.left ↔
            q.place.left < p.place.left := Nat.add_lt_add_iff_right
        by_cases hshorter : q.place.left < p.place.left
        · simp only [dif_pos hshorter, dif_pos (hiff.mpr hshorter)]
          exact ih _ hshorter q rfl
        · simp only [dif_neg hshorter, dif_neg fun h => hshorter (hiff.mp h)]
          exact hnext q
      simp only
      rw [Matcher.star, Matcher.star]
      simp only [hm.anywhere hround, hnext p]
      cases greedy with
      | false => exact (map_orElse _ _ _).symm
      | true => exact (map_orElse _ _ _).symm

end Matcher.Overlooks

/-- Whether a condition on the surroundings of a place takes the end of the text for a character
that is not part of a word. -/
def Anchor.overlooks : Anchor → Bool
  | .textStart | .wordEdge | .noWordEdge | .searchStart => true
  | .textEnd | .lastLineEnd | .lineStart | .lineEnd => false

/-- Whether an expression tells nothing apart by the text going on with a character that is not part
of a word. One that starts inside the text may begin with that character. -/
def Expr.overlooks (code : Nat) (inside : Bool) : Expr → Bool
  | .empty => true
  | .one of => inside || !of.contains code
  | .seq a b => a.overlooks code inside && b.overlooks code false
  | .alt a b => a.overlooks code inside && b.overlooks code inside
  | .group _ body | .atomic body | .ahead _ body => body.overlooks code inside
  | .anchor condition => condition.overlooks
  | .repeated body _ _ _ => body.overlooks code false
  | .behind _ _ | .backref _ _ | .keep => false

section

variable {char : Char} {back : List Char} (hword : Unicode.isWord char.toNat = false)

include hword

theorem isWordAt_codeAfter?_extend (c : Cursor) :
    isWordAt (codeAfter? (c.extend (char :: back))) = isWordAt (codeAfter? c) := by
  unfold codeAfter?
  rw [Cursor.extend_after]
  cases c.after with
  | nil => simpa [isWordAt] using hword
  | cons first rest => rfl

theorem Anchor.holds_extend {condition : Anchor} (h : condition.overlooks = true) (origin : Nat)
    (c : Cursor) : condition.holds origin (c.extend (char :: back)) = condition.holds origin c := by
  have hafter : isWordAt (codeAfter? (c.extend (char :: back))) = isWordAt (codeAfter? c) :=
    isWordAt_codeAfter?_extend hword c
  cases condition with
  | textStart | searchStart => rfl
  | wordEdge => exact congrArg (isWordAt (codeBefore? c) != ·) hafter
  | noWordEdge => exact congrArg (isWordAt (codeBefore? c) == ·) hafter
  | textEnd | lastLineEnd | lineStart | lineEnd => cases h

/-- By induction on the expression: what follows a part may start at the end of the text, also if
the part starts inside. -/
theorem Expr.run_extend (origin : Nat) {e : Expr} {inside : Bool}
    (h : e.overlooks char.toNat inside = true) :
    Matcher.Overlooks (char :: back) inside (e.run origin) := by
  induction e generalizing inside with
  | empty => exact fun p next next' _ hnext => hnext p
  | one of =>
      intro p next next' hinside hnext
      simp only [Expr.overlooks, Bool.or_eq_true, Bool.not_eq_true'] at h
      cases hfirst : p.place.next? with
      | some found =>
          obtain ⟨first, d⟩ := found
          have hmore := Cursor.next?_extend hfirst (char :: back)
          simp only [Expr.run, Progress.extend_place, hfirst, hmore]
          split
          · exact hnext (p.moved d)
          · rfl
      | none =>
          have hafter : p.place.after = [] := Cursor.next?_eq_none_iff.mp hfirst
          have hof : of.contains char.toNat = false := h.resolve_left fun h => hinside h hafter
          have hreads : (p.place.extend (char :: back)).after = [char] ++ back := by
            rw [Cursor.extend_after, hafter]
            rfl
          obtain ⟨d, hreads, -⟩ := Cursor.exists_reads hreads
          simp only [Expr.run, Progress.extend_place, hfirst, Cursor.reads_single_iff.mp hreads,
            hof]
          rfl
  | seq a b iha ihb =>
      intro p next next' hinside hnext
      simp only [Expr.overlooks, Bool.and_eq_true] at h
      exact iha h.1 p _ _ hinside fun q => (ihb h.2).anywhere hnext
  | alt a b iha ihb =>
      intro p next next' hinside hnext
      simp only [Expr.overlooks, Bool.and_eq_true] at h
      simp only [Expr.run, iha h.1 p next next' hinside hnext, ihb h.2 p next next' hinside hnext]
      exact (map_orElse _ _ _).symm
  | group number body ih =>
      intro p next next' hinside hnext
      simp only [Expr.run, ← Progress.extend_opened]
      exact ih h (p.opened number) _ _ hinside fun q => hnext (q.closed number p.place)
  | atomic body ih =>
      intro p next next' hinside hnext
      simp only [Expr.run, ih h p some some hinside (follows_some _)]
      cases body.run origin p some with
      | none => rfl
      | some q => exact hnext q
  | ahead negate body ih =>
      intro p next next' hinside hnext
      simp only [Expr.run, ih h p some some hinside (follows_some _)]
      cases body.run origin p some with
      | none =>
          cases negate with
          | false => rfl
          | true => exact hnext p
      | some q =>
          cases negate with
          | false => exact hnext (q.moved p.place)
          | true => rfl
  | anchor condition =>
      intro p next next' hinside hnext
      simp only [Expr.run, Progress.extend_place, Anchor.holds_extend hword h]
      split
      · exact hnext p
      · rfl
  | repeated body least most greedy ih =>
      intro p next next' hinside hnext
      have hbody : Matcher.Overlooks (char :: back) false (body.run origin) := ih h
      cases most with
      | none => exact hbody.times (hbody.star hnext greedy) least p
      | some most => exact hbody.times (hbody.upTo hnext greedy (most - least)) least p
  | behind | backref | keep => cases h

end

end Regex

end Highlight
