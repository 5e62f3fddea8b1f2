import Highlight.Proofs.Regex.Captures
import Highlight.Proofs.Scan.Pieces
import Highlight.Proofs.Unicode.Caseless

/-!
What the patterns for strings and comments match, in the languages like C. A string goes on to the
first quote of the kind that it began with (`run_string`). A comment takes the character in front of
it for its context, and so does a comment that opens behind a quote (`exists_hits_of_comment`).
-/

namespace Highlight

open Regex Regex.Expr

namespace Languages.CLike

def single (char : Char) : Expr :=
  .one (.single char.toNat)

def noneOf (chars : List Char) : CharClass :=
  .compl (.ofCodes (chars.map Char.toNat))

def anything : CharClass :=
  .union (.union .none (.property .space)) (.compl (.property .space))

/-- The start of the text, or a character in front of a comment. -/
def context (of : CharClass) : Expr :=
  .group 1 (.alt (.anchor .textStart) (.one of))

def opening (second : Char) (rest : Expr) : Expr :=
  .seq (single '/') (.seq (single second) rest)

/-- Up to the end of the comment, or else of the text. -/
def blockRest : Expr :=
  .seq (.repeated (.one anything) 0 none false)
    (.alt (.seq (single '*') (single '/')) (.anchor .lastLineEnd))

def lineRest : Expr :=
  star (.one (.compl (.single '\n'.toNat)))

/-- Comments that open with a slash and a second character, but not behind `others`. -/
def comment (others : List Char) (second : Char) (rest : Expr) : Outline :=
  ⟨"comment", true, false, .seq (context (noneOf others)) (opening second rest)⟩

def blockComment : Outline :=
  comment ['\\'] '*' blockRest

def lineComment : Outline :=
  comment ['\\', ':'] '/' lineRest

/-- The quote that the string began with. -/
def sameQuote : Expr :=
  .backref [1] false

def escape : Expr :=
  .seq (single '\\') (.alt (.seq (single '\r') (single '\n')) (.one anything))

def unit : Expr :=
  .alt escape (.seq (.ahead true sameQuote) (.one (noneOf ['\\', '\r', '\n'])))

def string : Outline :=
  ⟨"string", false, true,
    .seq (.group 1 (.one (.ofCodes [0x22, 0x27]))) (.seq (star unit) sameQuote)⟩

/-- Characters that are themselves in a string between double quotes. -/
def IsPlain (content : List Char) : Prop :=
  ∀ char ∈ content, char ∉ ['"', '\\', '\r', '\n']

instance (content : List Char) : Decidable (IsPlain content) :=
  List.decidableBAll _ content

/-- The first group holds what stands between two places, where a match begins. -/
def captured (c e : Cursor) : Progress :=
  (((Progress.ofPlace c).opened 1).moved e).closed 1 c

section Characters

variable {c d : Cursor} {char : Char}

theorem moves_single (h : c.Reads [char] d) : (single char).Moves c d :=
  moves_one h (by rw [CharClass.contains_single, beq_self_eq_true])

theorem fails_single (h : codeAfter? c ≠ some char.toNat) : (single char).Fails c := by
  refine fails_one ?_
  rw [Option.any_eq_false]
  intro code hcode
  rw [CharClass.contains_single, beq_eq_false_iff_ne]
  rintro rfl
  exact h hcode

theorem contains_noneOf {chars : List Char} (h : char ∉ chars) :
    (noneOf chars).contains char.toNat = true := by
  rw [noneOf, CharClass.contains, CharClass.contains_ofCodes, Bool.not_eq_true', ← Bool.not_eq_true,
    List.contains_iff_mem, List.mem_map]
  rintro ⟨other, hother, heq⟩
  exact h (Char.toNat_inj.mp heq ▸ hother)

theorem contains_anything (code : Nat) : anything.contains code = true := by
  simp [anything, CharClass.contains]

end Characters

section Strings

variable {origin : Nat} {p : Progress} {next : Progress → Option Progress} {c d e : Cursor}

theorem run_unit_of_plain {char : Char} (hchar : char ∉ ['"', '\\', '\r', '\n'])
    (hheld : p.Holds 1 ['"']) (h : p.place.Reads [char] d) :
    unit.run origin p next = next (p.moved d) := by
  simp only [List.mem_cons, List.not_mem_nil, or_false, not_or] at hchar
  obtain ⟨hquote, hbackslash, hreturn, hnewline⟩ := hchar
  have hcode {other : Char} (hne : char ≠ other) : codeAfter? p.place ≠ some other.toNat := by
    rw [codeAfter?_of_reads h]
    exact fun heq => hne (Char.toNat_inj.mp (Option.some.inj heq))
  have hescape : escape.Fails p.place := (fails_single (hcode hbackslash)).seq
  have hsame : sameQuote.run origin p some = none := run_backref_of_ne hheld (hcode hquote)
  have hother : char ∉ ['\\', '\r', '\n'] := by simp [hbackslash, hreturn, hnewline]
  simp only [unit, run, hescape origin p next rfl, hsame]
  exact moves_one h (contains_noneOf hother) origin p next rfl

theorem run_unit_of_quote (hheld : p.Holds 1 ['"']) (h : p.place.Reads ['"'] d) :
    unit.run origin p next = none := by
  have hescape : escape.Fails p.place :=
    (fails_single (by rw [codeAfter?_of_reads h]; decide)).seq
  have hsame : sameQuote.run origin p some = some (p.moved d) := run_backref_of_reads hheld h
  simp only [unit, run, hescape origin p next rfl, hsame]
  rfl

/-- By induction on what stands in the quotes: no character of it closes them. -/
theorem star_units {content : List Char} (hplain : IsPlain content) (hheld : p.Holds 1 ['"'])
    (h : p.place.Reads content d) (hclose : d.Reads ['"'] e) :
    Matcher.star (unit.run origin) true p (fun q => sameQuote.run origin q next) =
      next (p.moved e) := by
  induction content generalizing p with
  | nil =>
      obtain rfl := h.eq_of_nil
      have hsame : sameQuote.run origin p next = next (p.moved e) :=
        run_backref_of_reads hheld hclose
      rw [Matcher.star]
      simp only [run_unit_of_quote hheld hclose, if_true, hsame]
      rfl
  | cons char content ih =>
      obtain ⟨f, hfirst, hrest⟩ := h.exists_of_cons
      obtain ⟨hchar, hothers⟩ := List.forall_mem_cons.mp hplain
      have hleft : (p.moved f).place.left < p.place.left := hfirst.left_lt (by simp)
      have hopen : sameQuote.run origin p next = none := by
        refine run_backref_of_ne hheld ?_
        rw [codeAfter?_of_reads hfirst]
        intro heq
        exact hchar (by simp [Char.toNat_inj.mp (Option.some.inj heq)])
      rw [Matcher.star]
      simp only [run_unit_of_plain hchar hheld hfirst, dif_pos hleft, if_true, hopen,
        ih hothers (hheld.moved f) hrest, Progress.moved_moved]
      cases next (p.moved e) <;> rfl

theorem run_string {content : List Char} (hplain : IsPlain content)
    (h : c.Reads ('"' :: (content ++ ['"'])) d) (origin : Nat) (next : Progress → Option Progress) :
    ∃ q : Progress, q.place = d ∧ string.expr.run origin (.ofPlace c) next = next q := by
  obtain ⟨e, hopen, hrest⟩ := h.exists_of_cons
  obtain ⟨f, hinside, hclose⟩ := hrest.exists_of_append
  have hquote : (CharClass.ofCodes [0x22, 0x27]).contains '"'.toNat = true := by decide
  have hheld : (captured c e).Holds 1 ['"'] := Progress.holds_closed hopen
  have hfirst := moves_one hopen hquote origin ((Progress.ofPlace c).opened 1)
    (fun q => (Expr.seq (star unit) sameQuote).run origin (q.closed 1 c) next) rfl
  exact ⟨_, rfl, hfirst.trans (star_units hplain hheld hinside hclose)⟩

end Strings

section Comments

variable {origin : Nat} {p : Progress} {next : Progress → Option Progress} {c d e : Cursor}
  {of : CharClass} {second : Char} {rest tail : Expr}

/-- Where what follows fails, a character is the context of it. -/
theorem run_context {char : Char} (h : c.Reads [char] e) (hof : of.contains char.toNat = true)
    (hfails : tail.Fails c) (hp : p.place = c) :
    (Expr.seq (context of) tail).run origin p next =
      tail.run origin (((p.opened 1).moved e).closed 1 c) next := by
  subst hp
  have hnone : (anchor .textStart).run origin (p.opened 1)
      (fun q => tail.run origin (q.closed 1 p.place) next) = none := by
    rw [run]
    split
    · exact hfails origin _ next rfl
    · rfl
  have hone := moves_one h hof origin (p.opened 1)
    (fun q => tail.run origin (q.closed 1 p.place) next) rfl
  exact congrArg₂ (· <|> ·) hnone hone

/-- At the start of a text there is no context, unless what follows fails there. -/
theorem run_context_of_start {r : Progress} (hstart : c.before = []) (hp : p.place = c)
    (h : tail.run origin ((p.opened 1).closed 1 c) next = some r) :
    (Expr.seq (context of) tail).run origin p next = some r := by
  subst hp
  have hanchor : ∀ origin, Anchor.textStart.holds origin p.place = true := by
    intro origin
    rw [Anchor.holds, hstart]
    rfl
  have hnone := moves_anchor hanchor origin (p.opened 1)
    (fun q => tail.run origin (q.closed 1 p.place) next) rfl
  exact (congrArg (· <|> _) (hnone.trans h)).trans rfl

/-- Behind the start of a text, a match begins with a character for the context. -/
theorem exists_of_run_context {r : Progress} (hbefore : c.before ≠ []) (hp : p.place = c)
    (h : (Expr.seq (context of) tail).run origin p next = some r) :
    ∃ char e, c.Reads [char] e ∧
      tail.run origin (((p.opened 1).moved e).closed 1 c) next = some r := by
  subst hp
  rcases eq_some_of_orElse h with h | h
  · have hstart : p.place.before.isEmpty = false := by simpa using hbefore
    have hnone : (anchor .textStart).run origin (p.opened 1)
        (fun q => tail.run origin (q.closed 1 p.place) next) = none := by
      rw [run, Progress.opened, Anchor.holds, hstart]
      rfl
    cases hnone.symm.trans h
  · simp only [run, Progress.opened] at h
    split at h
    next char e hnext =>
      split at h
      next => exact ⟨char, e, Cursor.reads_single_iff.mpr hnext, h⟩
      next => cases h
    next => cases h

theorem fails_opening (h : ∀ d, ¬ c.Reads ['/', second] d) : (opening second rest).Fails c := by
  by_cases hslash : codeAfter? c = some '/'.toNat
  · obtain ⟨d, hfirst⟩ := exists_reads_of_codeAfter? hslash
    refine (moves_single hfirst).seq_fails (fails_single fun hsecond => ?_).seq
    obtain ⟨f, hrest⟩ := exists_reads_of_codeAfter? hsecond
    exact h f (hfirst.trans hrest)
  · exact (fails_single hslash).seq

theorem run_opening (h : c.Reads ['/', second] d) (hp : p.place = c) :
    (opening second rest).run origin p next = rest.run origin (p.moved d) next := by
  obtain ⟨f, hfirst, hsecond⟩ := h.exists_of_cons
  rw [opening, run, moves_single hfirst origin p _ hp, run, moves_single hsecond origin _ _ rfl,
    Progress.moved_moved]

theorem not_reads_of_reads {char : Char} (h : c.Reads [char] e) (hne : char ≠ '/') (d : Cursor) :
    ¬ c.Reads ['/', second] d := by
  intro hreads
  exact hne (List.cons.inj (h.after.symm.trans hreads.after)).1

theorem exists_run_of_quiet (hquiet : rest.Quiet)
    (hsome : ∀ p, (rest.run origin p some).isSome = true) (p : Progress) (d : Cursor) :
    ∃ f, d ≤ f ∧ rest.run origin (p.moved d) some = some (p.moved f) := by
  obtain ⟨r, hrest⟩ := Option.isSome_iff_exists.mp (hsome (p.moved d))
  obtain ⟨_, ⟨f, hle, rfl⟩, hr⟩ := hquiet origin (p.moved d) some r hrest
  cases hr
  exact ⟨f, hle, hrest⟩

section Hits

variable {entry : Token × Pattern} {others : List Char}
  (hsteady : entry.2.regex.isSteady = true)
  (houtline : entry.2.outline entry.1.name = comment others second rest)

include hsteady houtline

section Context

variable {char : Char} (hothers : char ∉ others) (hfirst : c.Reads [char] e)
  (hhere : ∀ d, ¬ c.Reads ['/', second] d)

include hothers hfirst hhere

/-- There is no comment at a place if none opens there or behind the next character. -/
theorem hitAt?_of_comment (h : ∀ d, ¬ e.Reads ['/', second] d) :
    Plain.hitAt? (entry.2.rule entry.1.name) c = none := by
  have hexpr : entry.2.regex.program.expr =
      .seq (context (noneOf others)) (opening second rest) := congrArg Outline.expr houtline
  refine Pattern.hitAt?_of_fails hsteady ?_
  intro origin p next hp
  rw [hexpr, run_context hfirst (contains_noneOf hothers) (fails_opening hhere) hp,
    fails_opening h origin (((p.opened 1).moved e).closed 1 c) next rfl]

/-- But if a comment opens behind the next character, that is its context. -/
theorem exists_hits_of_comment {f : Cursor} (hopens : e.Reads ['/', second] d) (hle : d ≤ f)
    (hrest : rest.run 0 ((captured c e).moved d) some = some ((captured c e).moved f)) :
    ∃ hit, Plain.hits (entry.2.rule entry.1.name) c = ([hit], f) ∧
      Plain.hitAt? (entry.2.rule entry.1.name) c = some (hit, f) ∧ hit.contextEnd = e.offset := by
  have hexpr : entry.2.regex.program.expr =
      .seq (context (noneOf others)) (opening second rest) := congrArg Outline.expr houtline
  have hlookbehind : entry.2.lookbehind = true := congrArg Outline.lookbehind houtline
  have hglobal : entry.2.global = false := congrArg Outline.global houtline
  have hopening : (opening second rest).run 0 (captured c e) some =
      some ((captured c e).moved f) := by
    rw [run_opening hopens rfl, hrest]
  have hmatch : entry.2.regex.program.expr.matchAt? 0 c =
      some (.ofProgress c ((captured c e).moved f)) := by
    rw [Expr.matchAt?, hexpr,
      run_context hfirst (contains_noneOf hothers) (fails_opening hhere) rfl]
    exact congrArg (Option.map (Match.ofProgress c)) hopening
  let hit := Hit.ofMatch true (.ofProgress c ((captured c e).moved f))
  have hfound : entry.2.hitHere? c = some hit := by
    rw [Pattern.hitHere?, hmatch, hlookbehind]
    rfl
  have hcontext : c.offset < e.offset := hfirst.offset_lt (by simp)
  have htoken : e.offset < f.offset :=
    Nat.lt_of_lt_of_le (hopens.offset_lt (by simp)) (Cursor.offset_le_of_le hle)
  have hcontextEnd : hit.contextEnd = e.offset := by
    show max (min c.offset f.offset) (min e.offset f.offset) = e.offset
    omega
  have hemits : hit.emits = true := Hit.emits_iff.mpr (hcontextEnd ▸ htoken)
  obtain ⟨front, hafter, hbefore⟩ : c ≤ f :=
    Cursor.le_trans hfirst.le (Cursor.le_trans hopens.le hle)
  have hread : c.readTo? hit.stop = some (front, f) :=
    Cursor.readTo?_eq_some_iff.mpr ⟨hafter, hbefore, rfl⟩
  have hhit : Plain.hitAt? (entry.2.rule entry.1.name) c = some (hit, f) :=
    Pattern.hitAt?_of_hitHere? hsteady hfound hemits hread
  refine ⟨hit, ?_, hhit, hcontextEnd⟩
  rw [Plain.hits_of_hitAt?_eq_some hhit, Pattern.rule_global, hglobal]
  rfl

end Context

/-- At the start of a text, a comment needs no context. -/
theorem hits_of_comment_of_start {f : Cursor} {text : List Char} (hstart : c.before = [])
    (hopens : c.Reads ['/', second] d) (hle : d ≤ f) (hreads : c.Reads text f)
    (hrest : rest.run 0 ((captured c c).moved d) some = some ((captured c c).moved f)) :
    Plain.hits (entry.2.rule entry.1.name) c =
      ([.between c f (Cursor.offset_le_of_le hreads.le)], f) := by
  have hexpr : entry.2.regex.program.expr =
      .seq (context (noneOf others)) (opening second rest) := congrArg Outline.expr houtline
  have hlookbehind : entry.2.lookbehind = true := congrArg Outline.lookbehind houtline
  have hglobal : entry.2.global = false := congrArg Outline.global houtline
  have hopening : (opening second rest).run 0 (captured c c) some =
      some ((captured c c).moved f) := by
    rw [run_opening hopens rfl, hrest]
  have hmatch : entry.2.regex.program.expr.matchAt? 0 c =
      some (.ofProgress c ((captured c c).moved f)) := by
    rw [Expr.matchAt?, hexpr, run_context_of_start hstart rfl hopening]
    rfl
  have hlt : c.offset < f.offset :=
    Nat.lt_of_lt_of_le (hopens.offset_lt (by simp)) (Cursor.offset_le_of_le hle)
  have hfound : entry.2.hitHere? c =
      some (.between c f (Cursor.offset_le_of_le hreads.le)) := by
    have hmin : min c.offset f.offset = c.offset := Nat.min_eq_left (Nat.le_of_lt hlt)
    rw [Pattern.hitHere?, hmatch, hlookbehind]
    simp [Match.ofProgress, Match.groupEnd?, Hit.ofMatch, Hit.contextEndOf, Hit.between, captured,
      Progress.closed, Progress.opened, Progress.moved, Progress.ofPlace, hmin]
  have hhit : Plain.hitAt? (entry.2.rule entry.1.name) c =
      some (.between c f (Cursor.offset_le_of_le hreads.le), f) :=
    Pattern.hitAt?_of_hitHere? hsteady hfound (Hit.emits_iff.mpr hlt) hreads.readTo?
  rw [Plain.hits_of_hitAt?_eq_some hhit, Pattern.rule_global, hglobal]
  rfl

/-- Behind the start of a text, all comments have a context. -/
theorem start_lt_contextEnd_of_comment {hit : Hit} (hquiet : rest.Quiet) (hbefore : c.before ≠ [])
    (h : Plain.hitAt? (entry.2.rule entry.1.name) c = some (hit, d)) :
    hit.start < hit.contextEnd := by
  have hexpr : entry.2.regex.program.expr =
      .seq (context (noneOf others)) (opening second rest) := congrArg Outline.expr houtline
  have hlookbehind : entry.2.lookbehind = true := congrArg Outline.lookbehind houtline
  obtain ⟨hfind, ⟨hstart, -⟩, -⟩ := Plain.hitAt?_eq_some_iff.mp h
  rw [Pattern.rule_find] at hfind
  have hfound := Pattern.hitHere?_of_hit? hsteady hfind hstart
  rw [Pattern.hitHere?, hlookbehind, Expr.matchAt?, hexpr] at hfound
  obtain ⟨m, hmatch, rfl⟩ := Option.map_eq_some_iff.mp hfound
  obtain ⟨r, hrun, rfl⟩ := Option.map_eq_some_iff.mp hmatch
  obtain ⟨char, e, hfirst, hopening⟩ := exists_of_run_context hbefore rfl hrun
  have hquiet : (opening second rest).Quiet := (quiet_one _).seq ((quiet_one _).seq hquiet)
  obtain ⟨_, ⟨f, hle, rfl⟩, hr⟩ := hquiet 0 _ some r hopening
  cases hr
  have hcontext : c.offset < e.offset := hfirst.offset_lt (by simp)
  have hrest : e.offset ≤ f.offset := Cursor.offset_le_of_le hle
  show min c.offset f.offset < max (min c.offset f.offset) (min e.offset f.offset)
  omega

end Hits

theorem quiet_blockRest : blockRest.Quiet :=
  ((quiet_one _).star false).seq (((quiet_one _).seq (quiet_one _)).alt (quiet_anchor _))

theorem quiet_lineRest : lineRest.Quiet :=
  (quiet_one _).star true

/-- A comment that is not closed ends with the text. -/
theorem isSome_blockRest (origin : Nat) (p : Progress) :
    (blockRest.run origin p some).isSome = true := by
  obtain ⟨d, hreads, hend⟩ := Cursor.exists_reads (List.append_nil p.place.after).symm
  refine isSome_star_of_reads hreads (fun char _ => contains_anything char.toNat) ?_
  have hanchor : Anchor.lastLineEnd.holds origin d = true := by
    rw [Anchor.holds, hend]
    rfl
  have hlast : (anchor .lastLineEnd).run origin (p.moved d) some = some (p.moved d) := by
    rw [run]
    exact if_pos hanchor
  show ((Expr.seq (single '*') (single '/')).run origin (p.moved d) some <|>
    (anchor .lastLineEnd).run origin (p.moved d) some).isSome = true
  rw [hlast]
  simp [Option.orElse_eq_orElse, Option.orElse_eq_or]

theorem isSome_lineRest (origin : Nat) (p : Progress) :
    (lineRest.run origin p some).isSome = true :=
  isSome_star_of_reads (Cursor.reads_nil p.place) (by simp) rfl

end Comments

end Languages.CLike

end Highlight
