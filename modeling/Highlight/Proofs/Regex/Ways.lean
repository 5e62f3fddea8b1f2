import Highlight.Proofs.Text.Reading
import Highlight.Regex.Matching

/-!
The ways to match from a place. An expression fails there, moves on in a single way or leads to a
place before it tries any other, and each of these is put together from the parts of the expression.
A greedy repetition goes on as long as its body does (`Expr.Rounds`). What an expression can begin
with decides where it fails (`Expr.fails_of_opens`).
-/

namespace Highlight.Regex

@[simp] theorem Progress.place_moved (p : Progress) (c : Cursor) : (p.moved c).place = c := rfl

@[simp] theorem Progress.moved_moved (p : Progress) (c d : Cursor) :
    (p.moved c).moved d = p.moved d := rfl

theorem codeAfter?_of_reads {c d : Cursor} {char : Char} {rest : List Char}
    (h : c.Reads (char :: rest) d) : codeAfter? c = some char.toNat := by
  rw [codeAfter?, h.after]
  rfl

theorem exists_reads_of_codeAfter? {c : Cursor} {char : Char}
    (h : codeAfter? c = some char.toNat) : ∃ d, c.Reads [char] d := by
  obtain ⟨found, hhead, hcode⟩ := Option.map_eq_some_iff.mp h
  obtain ⟨rest, hafter⟩ := List.head?_eq_some_iff.mp hhead
  rw [Char.toNat_inj.mp hcode] at hafter
  have hsplit : c.after = [char] ++ rest := hafter
  obtain ⟨d, hreads, -⟩ := Cursor.exists_reads hsplit
  exact ⟨d, hreads⟩

theorem codeBefore?_of_reads {c d : Cursor} {char : Char} {front : List Char}
    (h : c.Reads (front ++ [char]) d) : codeBefore? d = some char.toNat := by
  rw [codeBefore?, h.before, List.reverse_append]
  rfl

namespace Expr

variable {a b e body tail : Expr} {c d f : Cursor}

def star (e : Expr) : Expr :=
  .repeated e 0 none true

def plus (e : Expr) : Expr :=
  .repeated e 1 none true

def maybe (e : Expr) : Expr :=
  .repeated e 0 (some 1) true

/-- There is no way to match from a place. -/
def Fails (e : Expr) (c : Cursor) : Prop :=
  ∀ origin p next, p.place = c → e.run origin p next = none

/-- The only way to match from one place leads to another, and captures nothing. -/
def Moves (e : Expr) (c d : Cursor) : Prop :=
  ∀ origin p next, p.place = c → e.run origin p next = next (p.moved d)

/-- The first way to match from one place leads to another, and captures nothing. -/
def Leads (e : Expr) (c d : Cursor) : Prop :=
  ∀ origin p next r, p.place = c → next (p.moved d) = some r → e.run origin p next = some r

theorem Moves.leads (h : e.Moves c d) : e.Leads c d := by
  intro origin p next r hp hnext
  rw [h origin p next hp, hnext]

theorem Moves.not_fails (h : e.Moves c d) : ¬ e.Fails c := by
  intro hfails
  have hmoves := h 0 (.ofPlace c) some rfl
  rw [hfails 0 (.ofPlace c) some rfl] at hmoves
  cases hmoves

section Single

variable {of : CharClass} {char : Char}

theorem moves_one (h : c.Reads [char] d) (hof : of.contains char.toNat = true) :
    (one of).Moves c d := by
  rintro origin p next rfl
  rw [run, Cursor.reads_single_iff.mp h]
  simp only [hof, if_true]

theorem fails_one (h : (codeAfter? c).any of.contains = false) : (one of).Fails c := by
  rintro origin p next rfl
  rw [run]
  split
  next char d hnext =>
    have hcode : codeAfter? p.place = some char.toNat := by
      rw [codeAfter?, (Cursor.next?_eq_some_iff.mp hnext).1]
      rfl
    rw [hcode, Option.any_some] at h
    simp [h]
  next => rfl

end Single

section Seq

theorem Fails.seq (h : a.Fails c) : (seq a b).Fails c :=
  fun origin p _ hp => h origin p _ hp

theorem Moves.seq (h : a.Moves c d) (h' : b.Moves d f) : (seq a b).Moves c f := by
  intro origin p next hp
  rw [run, h origin p _ hp]
  exact h' origin (p.moved d) next rfl

theorem Moves.seq_fails (h : a.Moves c d) (h' : b.Fails d) : (Expr.seq a b).Fails c := by
  intro origin p next hp
  rw [run, h origin p _ hp]
  exact h' origin (p.moved d) next rfl

theorem Leads.seq (h : a.Leads c d) (h' : b.Leads d f) : (seq a b).Leads c f := by
  intro origin p next r hp hnext
  exact h origin p _ r hp (h' origin (p.moved d) next r rfl hnext)

theorem Moves.ofList {rest : List Expr} (h : e.Moves c d) (h' : (ofList rest).Moves d f) :
    (ofList (e :: rest)).Moves c f := by
  cases rest with
  | nil =>
      intro origin p next hp
      rw [Expr.ofList, h origin p next hp]
      exact h' origin (p.moved d) next rfl
  | cons => exact h.seq h'

theorem moves_ofList_nil (c : Cursor) : (Expr.ofList []).Moves c c := by
  rintro origin p next rfl
  rfl

end Seq

section Alt

theorem Fails.alt_moves (h : a.Fails c) (h' : b.Moves c d) : (alt a b).Moves c d := by
  intro origin p next hp
  rw [run, h origin p next hp, h' origin p next hp]
  rfl

theorem Fails.alt_leads (h : a.Fails c) (h' : b.Leads c d) : (alt a b).Leads c d := by
  intro origin p next r hp hnext
  rw [run, h origin p next hp, h' origin p next r hp hnext]
  rfl

theorem Moves.alt (h : a.Moves c d) (h' : b.Fails c) : (alt a b).Moves c d := by
  intro origin p next hp
  rw [run, h origin p next hp, h' origin p next hp]
  cases next (p.moved d) <;> rfl

theorem Leads.alt (h : a.Leads c d) : (alt a b).Leads c d := by
  intro origin p next r hp hnext
  rw [run, h origin p next r hp hnext]
  rfl

end Alt

section Around

theorem moves_anchor {condition : Anchor} (h : ∀ origin, condition.holds origin c = true) :
    (anchor condition).Moves c c := by
  rintro origin p next rfl
  rw [run, if_pos (h origin)]
  rfl

theorem Leads.ahead (h : body.Leads c d) : (ahead false body).Moves c c := by
  rintro origin p next rfl
  simp only [run, h origin p some (p.moved d) rfl rfl]
  rfl

theorem Fails.ahead (h : body.Fails c) : (ahead false body).Fails c := by
  intro origin p next hp
  simp only [run, h origin p some hp]

theorem Fails.not_ahead (h : body.Fails c) : (Expr.ahead true body).Moves c c := by
  rintro origin p next rfl
  simp only [run, h origin p some rfl]
  rfl

end Around

section Repeated

/-- The body of a repetition moves on, round by round, from one place to another, where it
fails. -/
inductive Rounds (body : Expr) : Cursor → Cursor → Prop
  | stop {c : Cursor} (fails : body.Fails c) : Rounds body c c
  | round {c d f : Cursor} (moves : body.Moves c d) (left : d.left < c.left)
      (rest : Rounds body d f) : Rounds body c f

variable {origin : Nat} {p : Progress} {next : Progress → Option Progress}

theorem star_of_fails (h : body.Fails p.place) :
    Matcher.star (body.run origin) true p next = next p := by
  rw [Matcher.star]
  simp only [h origin p _ rfl, if_true]
  rfl

theorem star_of_moves (h : body.Moves p.place d) (hleft : d.left < p.place.left) :
    Matcher.star (body.run origin) true p next =
      (Matcher.star (body.run origin) true (p.moved d) next <|> next p) := by
  rw [Matcher.star]
  have hmoved : (p.moved d).place.left < p.place.left := hleft
  simp only [h origin p _ rfl, if_true, dif_pos hmoved]

/-- If what follows fails wherever the body goes on, a repetition takes all rounds. -/
theorem Rounds.star_eq (h : body.Rounds c d) (hp : p.place = c)
    (hother : ∀ f, ¬ body.Fails f → next (p.moved f) = none) :
    Matcher.star (body.run origin) true p next = next (p.moved d) := by
  induction h generalizing p with
  | stop hfails =>
      subst hp
      rw [star_of_fails hfails]
      rfl
  | @round c d f hmoves hleft _ ih =>
      subst hp
      have hnone : next p = none := hother p.place hmoves.not_fails
      rw [star_of_moves hmoves hleft, ih (p.place_moved d) hother, hnone, Progress.moved_moved]
      cases next (p.moved f) <;> rfl

theorem Rounds.star_eq_some (h : body.Rounds c d) (hp : p.place = c) {r : Progress}
    (hnext : next (p.moved d) = some r) :
    Matcher.star (body.run origin) true p next = some r := by
  induction h generalizing p with
  | stop hfails =>
      subst hp
      rw [star_of_fails hfails]
      exact hnext
  | @round c d f hmoves hleft _ ih =>
      subst hp
      rw [star_of_moves hmoves hleft, ih (p.place_moved d) hnext]
      rfl

theorem Rounds.leads_star (h : body.Rounds c d) : (star body).Leads c d :=
  fun _ _ _ _ hp hnext => h.star_eq_some hp hnext

theorem Rounds.leads_plus (hmoves : body.Moves c d) (h : body.Rounds d f) :
    (plus body).Leads c f := by
  intro origin p next r hp hnext
  show body.run origin p (fun q => Matcher.star (body.run origin) true q next) = some r
  rw [hmoves origin p _ hp]
  exact h.star_eq_some rfl hnext

theorem Rounds.run_seq (h : body.Rounds c d) (hother : ∀ f, ¬ body.Fails f → tail.Fails f)
    (hp : p.place = c) :
    (seq (star body) tail).run origin p next = tail.run origin (p.moved d) next :=
  h.star_eq hp fun f hf => hother f hf origin (p.moved f) next rfl

theorem Rounds.seq_fails (h : body.Rounds c d) (hother : ∀ f, ¬ body.Fails f → tail.Fails f)
    (htail : tail.Fails d) : (seq (star body) tail).Fails c := by
  intro origin p next hp
  rw [h.run_seq hother hp]
  exact htail origin _ next rfl

theorem Leads.maybe (h : body.Leads c d) : (maybe body).Leads c d := by
  intro origin p next r hp hnext
  show (body.run origin p next <|> next p) = some r
  rw [h origin p next r hp hnext]
  rfl

theorem Fails.maybe (h : body.Fails c) : (Expr.maybe body).Moves c c := by
  rintro origin p next rfl
  show (body.run origin p next <|> next p) = next p
  rw [h origin p next rfl]
  rfl

theorem rounds_one {of : CharClass} {front : List Char} (h : c.Reads front d)
    (hfront : ∀ char ∈ front, of.contains char.toNat = true)
    (hstop : (codeAfter? d).any of.contains = false) : (one of).Rounds c d := by
  induction front generalizing c with
  | nil =>
      obtain rfl := h.eq_of_nil
      exact .stop (fails_one hstop)
  | cons char front ih =>
      obtain ⟨f, hfirst, hrest⟩ := h.exists_of_cons
      obtain ⟨hchar, hothers⟩ := List.forall_mem_cons.mp hfront
      exact .round (moves_one hfirst hchar) (hfirst.left_lt (by simp)) (ih hrest hothers)

/-- A repetition of characters comes to an end, greedy or not, if what follows does so behind some
of them. -/
theorem isSome_star_of_reads {of : CharClass} {front : List Char} {greedy : Bool}
    (h : p.place.Reads front d) (hfront : ∀ char ∈ front, of.contains char.toNat = true)
    (hnext : (next (p.moved d)).isSome = true) :
    (Matcher.star ((one of).run origin) greedy p next).isSome = true := by
  induction front generalizing p with
  | nil =>
      obtain rfl := h.eq_of_nil
      have hhere : (next p).isSome = true := hnext
      rw [Matcher.star]
      cases greedy with
      | false => simp [Option.orElse_eq_orElse, Option.orElse_eq_or, hhere]
      | true => simp [Option.orElse_eq_orElse, Option.orElse_eq_or, hhere]
  | cons char front ih =>
      obtain ⟨f, hfirst, hrest⟩ := h.exists_of_cons
      obtain ⟨hchar, hothers⟩ := List.forall_mem_cons.mp hfront
      have hleft : (p.moved f).place.left < p.place.left := hfirst.left_lt (by simp)
      have hagain := ih (p := p.moved f) hrest hothers hnext
      rw [Matcher.star]
      simp only [moves_one hfirst hchar origin p _ rfl, dif_pos hleft]
      cases greedy with
      | false => simp [Option.orElse_eq_orElse, Option.orElse_eq_or, hagain]
      | true => simp [Option.orElse_eq_orElse, Option.orElse_eq_or, hagain]

end Repeated

section Opens

/-- Whether an expression comes back to the place where it started. -/
def isStanding : Expr → Bool
  | .empty | .ahead _ _ | .behind _ _ | .anchor _ | .keep => true
  | _ => false

/-- Whether an expression may match in front of a character, or at the end of the text. -/
def opens : Expr → Option Nat → Bool
  | .one of, code => code.any of.contains
  | .seq a b, code => a.opens code && (!a.isStanding || b.opens code)
  | .alt a b, code => a.opens code || b.opens code
  | .group _ body, code | .atomic body, code | .ahead false body, code => body.opens code
  | .repeated body least _ _, code => least == 0 || body.opens code
  | _, _ => true

variable {origin : Nat} {p r : Progress} {next : Progress → Option Progress}

theorem exists_of_isStanding (h : e.isStanding = true) (hrun : e.run origin p next = some r) :
    ∃ q : Progress, q.place = p.place ∧ next q = some r := by
  cases e with
  | empty => exact ⟨p, rfl, hrun⟩
  | ahead negate body =>
      simp only [run] at hrun
      split at hrun
      next q _ => exact ⟨q.moved p.place, rfl, hrun⟩
      next => exact ⟨p, rfl, hrun⟩
      next => cases hrun
  | behind negate body =>
      simp only [run] at hrun
      split at hrun
      next q _ => exact ⟨q.moved p.place, rfl, hrun⟩
      next => exact ⟨p, rfl, hrun⟩
      next => cases hrun
  | anchor condition =>
      rw [run, Option.ite_none_right_eq_some] at hrun
      exact ⟨p, rfl, hrun.2⟩
  | keep => exact ⟨{ p with keep := some p.place }, rfl, hrun⟩
  | one | seq | alt | group | atomic | backref | repeated => cases h

theorem fails_of_opens (h : e.opens (codeAfter? c) = false) : e.Fails c := by
  induction e generalizing c with
  | one of => exact fails_one h
  | seq a b iha ihb =>
      rw [opens, Bool.and_eq_false_iff, Bool.or_eq_false_iff] at h
      rcases h with ha | ⟨hstanding, hb⟩
      · exact (iha ha).seq
      · rintro origin p next rfl
        rw [run, Option.eq_none_iff_forall_ne_some]
        intro r hrun
        obtain ⟨q, hplace, hnext⟩ := exists_of_isStanding (by simpa using hstanding) hrun
        rw [ihb hb origin q next hplace] at hnext
        cases hnext
  | alt a b iha ihb =>
      rw [opens, Bool.or_eq_false_iff] at h
      intro origin p next hp
      rw [run, iha h.1 origin p next hp, ihb h.2 origin p next hp]
      rfl
  | group number body ih =>
      rintro origin p next rfl
      exact ih h origin (p.opened number) _ rfl
  | atomic body ih =>
      intro origin p next hp
      rw [run, ih h origin p some hp]
      rfl
  | ahead negate body ih =>
      cases negate with
      | false => exact (ih h).ahead
      | true => cases h
  | repeated body least most greedy ih =>
      rw [opens, Bool.or_eq_false_iff] at h
      obtain ⟨hleast, hbody⟩ := h
      cases least with
      | zero => cases hleast
      | succ least => exact fun origin p next hp => ih hbody origin p _ hp
  | empty | behind | anchor | backref | keep => cases h

end Opens

end Expr

end Highlight.Regex
