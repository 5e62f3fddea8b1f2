import Highlight.Languages.Json
import Highlight.Proofs.Languages.Json.Document
import Highlight.Proofs.Unicode.Caseless

/-!
What the patterns for JSON match. Their expressions are given part by part (`outlines`). Each leads
over the lexemes that it is for, as long as something follows that may follow them.
-/

namespace Highlight

open Regex Regex.Expr

namespace Languages.Json

/-- The class of some characters that have no other cases, read with or without regard to case. -/
def exactly (fold : Bool) (chars : List Char) : CharClass :=
  .foldIf fold (.ofCodes (chars.map Char.toNat))

def symbol (fold : Bool) (char : Char) : Expr :=
  .one (.foldIf fold (.single char.toNat))

/-- A character inside a string, or an escape. -/
def unit (fold : Bool) : Expr :=
  .alt (.seq (symbol fold '\\') (.one (.compl (.single '\n'.toNat))))
    (.one (.compl (exactly fold ['\\', '"', '\r', '\n'])))

def quoted (fold : Bool) (condition : Expr) : Expr :=
  .seq (symbol fold '"') (.seq (star (unit fold)) (.seq (symbol fold '"') condition))

def colonAhead (fold : Bool) : Expr :=
  .seq (star (.one (.property .space))) (symbol fold ':')

def wordEdge : Expr :=
  .anchor .wordEdge

def digit : Expr :=
  .one (.property .digit)

def hexDigits : Expr :=
  plus (.one (.union (.union (.union .none (.property .digit)) (.range 0x41 0x46))
    (.range 0x61 0x66)))

def hex : Expr :=
  ofList [wordEdge, symbol false '0', symbol false 'x', hexDigits, wordEdge]

def fraction : Expr :=
  .seq (maybe (symbol false '.')) (star digit)

def decimal : Expr :=
  .seq wordEdge (.seq (plus digit) fraction)

def dotted : Expr :=
  ofList [.anchor .noWordEdge, symbol false '.', plus digit]

def exponent : Expr :=
  .seq (.one (exactly false ['E', 'e'])) (.seq (maybe (.one (exactly false ['+', '-'])))
    (plus digit))

def number : Expr :=
  .alt hex (.seq (.alt decimal dotted) (maybe exponent))

def letters (word : String) : List Expr :=
  word.toList.map (symbol true)

def boolean : Expr :=
  ofList [wordEdge, .alt (ofList (letters "true")) (ofList (letters "false")), wordEdge]

def null : Expr :=
  ofList (wordEdge :: (letters "null" ++ [wordEdge]))

def property : Outline :=
  ⟨"property", false, false, quoted true (.ahead false (colonAhead true))⟩

def string : Outline :=
  ⟨"string", false, true, quoted false (.ahead true (colonAhead false))⟩

def outlines : List Outline := [
  property, string,
  ⟨"number", false, false, number⟩,
  ⟨"punctuation", false, false, .one (exactly false ['\x7b', '\x7d', '[', ']', ')', ';', ','])⟩,
  ⟨"operator", false, false, symbol false ':'⟩,
  ⟨"boolean", false, false, boolean⟩,
  ⟨"null", false, false, null⟩]

section Classes

variable {c d : Cursor} {char : Char} {fold : Bool}

theorem contains_exactly {chars : List Char}
    (h : ∀ code ∈ chars.map Char.toNat, Unicode.isCaseless code = true) (code : Nat) :
    (exactly fold chars).contains code = (chars.map Char.toNat).contains code := by
  rw [exactly, CharClass.contains_foldIf_of_caseless, CharClass.contains_ofCodes]
  intro other hother
  rw [CharClass.contains_ofCodes, List.contains_iff_mem] at hother
  exact h other hother

theorem moves_symbol (h : c.Reads [char] d) : (symbol fold char).Moves c d := by
  refine moves_one h ?_
  have hsingle : (CharClass.single char.toNat).contains char.toNat = true := by
    rw [CharClass.contains_single, beq_self_eq_true]
  cases fold with
  | false => exact hsingle
  | true => simp [CharClass.foldIf, CharClass.contains, hsingle]

theorem fails_symbol (hcaseless : Unicode.isCaseless char.toNat = true)
    (h : codeAfter? c ≠ some char.toNat) : (symbol fold char).Fails c := by
  refine fails_one ?_
  rw [Option.any_eq_false]
  intro code hcode
  have hne : code ≠ char.toNat := by
    rintro rfl
    exact h hcode
  rw [CharClass.contains_foldIf_of_caseless, CharClass.contains_single]
  · simpa using hne
  · intro other hother
    rw [CharClass.contains_single, beq_iff_eq] at hother
    rwa [hother]

end Classes

section Strings

/-- What the inside of a string consists of, as far as its end is concerned: escapes, which may
hide a quote, and other characters. -/
inductive Units : List Char → Prop
  | nil : Units []
  | plain {char : Char} {rest : List Char} (not_mem : char ∉ ['\\', '"', '\r', '\n'])
      (units : Units rest) : Units (char :: rest)
  | escape {char : Char} {rest : List Char} (not_newline : char ≠ '\n') (units : Units rest) :
      Units ('\\' :: char :: rest)

theorem Units.append_of_hex {code rest : List Char} (hcode : ∀ char ∈ code, isHex char = true)
    (h : Units rest) : Units (code ++ rest) := by
  induction code with
  | nil => exact h
  | cons char code ih =>
      obtain ⟨hchar, hothers⟩ := List.forall_mem_cons.mp hcode
      refine .plain ?_ (ih hothers)
      rintro hmem
      simp only [List.mem_cons, List.not_mem_nil, or_false] at hmem
      rcases hmem with rfl | rfl | rfl | rfl
      all_goals exact absurd hchar (by decide)

theorem IsContent.units {content : List Char} (h : IsContent content) : Units content := by
  induction h with
  | nil => exact .nil
  | @plain char rest hvisible hquote hbackslash _ ih =>
      refine .plain ?_ ih
      simp only [List.mem_cons, List.not_mem_nil, or_false, not_or]
      refine ⟨hbackslash, hquote, ?_, ?_⟩
      · rintro rfl
        exact absurd hvisible (by decide)
      · rintro rfl
        exact absurd hvisible (by decide)
  | @escape char rest hmem _ ih =>
      refine .escape ?_ ih
      rintro rfl
      exact absurd hmem (by decide)
  | unicode _ hhex _ ih => exact .escape (by decide) (ih.append_of_hex hhex)

variable {c d : Cursor} {fold : Bool}

theorem contains_specials (code : Nat) :
    (exactly fold ['\\', '"', '\r', '\n']).contains code =
      (['\\', '"', '\r', '\n'].map Char.toNat).contains code :=
  contains_exactly (by decide) code

theorem moves_unit_plain {char : Char} (hchar : char ∉ ['\\', '"', '\r', '\n'])
    (h : c.Reads [char] d) : (unit fold).Moves c d := by
  refine Fails.alt_moves (Fails.seq (fails_symbol (by decide) ?_)) (moves_one h ?_)
  · rw [codeAfter?_of_reads h]
    intro heq
    have hbackslash : char = '\\' := Char.toNat_inj.mp (Option.some.inj heq)
    exact hchar (by simp [hbackslash])
  · rw [CharClass.contains, contains_specials, Bool.not_eq_true', ← Bool.not_eq_true,
      List.contains_iff_mem, List.mem_map]
    rintro ⟨other, hother, heq⟩
    rw [Char.toNat_inj] at heq
    exact hchar (heq ▸ hother)

theorem moves_unit_escape {char : Char} (hchar : char ≠ '\n') (h : c.Reads ['\\', char] d) :
    (unit fold).Moves c d := by
  obtain ⟨f, hfirst, hsecond⟩ := h.exists_of_cons
  refine ((moves_symbol hfirst).seq (moves_one hsecond ?_)).alt (fails_one ?_)
  · rw [CharClass.contains, CharClass.contains_single, Bool.not_eq_true', beq_eq_false_iff_ne]
    exact fun heq => hchar (Char.toNat_inj.mp heq)
  · rw [codeAfter?_of_reads hfirst, Option.any_some, CharClass.contains, contains_specials]
    rfl

theorem fails_unit_of_quote (h : codeAfter? c = some '"'.toNat) : (unit fold).Fails c := by
  refine fails_of_opens ?_
  rw [h]
  cases fold <;> decide

theorem rounds_unit {content : List Char} (hunits : Units content) (h : c.Reads content d)
    (hquote : codeAfter? d = some '"'.toNat) : (unit fold).Rounds c d := by
  induction hunits generalizing c with
  | nil =>
      obtain rfl := h.eq_of_nil
      exact .stop (fails_unit_of_quote hquote)
  | plain hchar _ ih =>
      obtain ⟨f, hfirst, hrest⟩ := h.exists_of_cons
      exact .round (moves_unit_plain hchar hfirst) (hfirst.left_lt (by simp)) (ih hrest)
  | @escape char rest hchar _ ih =>
      have happend : c.Reads (['\\', char] ++ rest) d := h
      obtain ⟨f, hfirst, hrest⟩ := happend.exists_of_append
      exact .round (moves_unit_escape hchar hfirst) (hfirst.left_lt (by simp)) (ih hrest)

/-- Where a string stands, a quoted expression comes to its end and to nowhere else. -/
theorem run_quoted {text : List Char} (htext : IsString text) (h : c.Reads text d)
    (condition : Expr) {origin : Nat} {p : Progress} {next : Progress → Option Progress}
    (hp : p.place = c) :
    (quoted fold condition).run origin p next = condition.run origin (p.moved d) next := by
  obtain ⟨hcontent⟩ := htext
  obtain ⟨e, hopen, hrest⟩ := h.exists_of_cons
  obtain ⟨f, hinside, hclose⟩ := hrest.exists_of_append
  have hrounds : (unit fold).Rounds e f :=
    rounds_unit hcontent.units hinside (codeAfter?_of_reads hclose)
  -- Elsewhere the closing quote fails, since an inside goes on only where there is none.
  have hother : ∀ g, ¬ (unit fold).Fails g → (Expr.seq (symbol fold '"') condition).Fails g := by
    intro g hg
    refine Fails.seq (fails_symbol (by decide) ?_)
    exact fun hquote => hg (fails_unit_of_quote hquote)
  rw [quoted, run, moves_symbol hopen origin p _ hp, hrounds.run_seq hother (p.place_moved e), run,
    moves_symbol hclose origin _ _ rfl]
  rfl

theorem moves_quoted {text : List Char} (htext : IsString text) (h : c.Reads text d)
    {condition : Expr} (hcondition : condition.Moves d d) :
    (quoted fold condition).Moves c d := by
  intro origin p next hp
  rw [run_quoted htext h condition hp, hcondition origin _ next rfl]
  rfl

theorem fails_quoted {text : List Char} (htext : IsString text) (h : c.Reads text d)
    {condition : Expr} (hcondition : condition.Fails d) : (quoted fold condition).Fails c := by
  intro origin p next hp
  rw [run_quoted htext h condition hp]
  exact hcondition origin _ next rfl

end Strings

section Ends

/-- What may follow a value behind blanks: the end of the text, a comma or a closing bracket. -/
def closers : List (Option Nat) :=
  [none, some ','.toNat, some ']'.toNat, some '\x7d'.toNat]

/-- What may follow a value right away. -/
def stops : List (Option Nat) :=
  closers ++ blankChars.map (some ·.toNat)

/-- A value may end at a place. -/
def Closed (c : Cursor) : Prop :=
  ∃ blanks d, c.Reads blanks d ∧ IsBlanks blanks ∧ codeAfter? d ∈ closers

variable {c d e : Cursor} {blanks : List Char} {fold : Bool}

theorem Closed.codeAfter?_mem (h : Closed c) : codeAfter? c ∈ stops := by
  obtain ⟨blanks, d, hreads, hblanks, hcode⟩ := h
  cases blanks with
  | nil =>
      obtain rfl := hreads.eq_of_nil
      exact List.mem_append_left _ hcode
  | cons char blanks =>
      rw [codeAfter?_of_reads hreads]
      exact List.mem_append_right _ (List.mem_map_of_mem (hblanks char List.mem_cons_self))

theorem closed_of_reads {char : Char} (h : c.Reads [char] d) (hchar : some char.toNat ∈ closers) :
    Closed c :=
  ⟨[], c, Cursor.reads_nil c, by simp [IsBlanks], by rwa [codeAfter?_of_reads h]⟩

theorem Closed.of_blanks (h : c.Reads blanks d) (hblanks : IsBlanks blanks) (hclosed : Closed d) :
    Closed c := by
  obtain ⟨others, e, hreads, hothers, hcode⟩ := hclosed
  refine ⟨blanks ++ others, e, h.trans hreads, ?_, hcode⟩
  exact fun char hmem => (List.mem_append.mp hmem).elim (hblanks char) (hothers char)

theorem rounds_blanks (h : c.Reads blanks d) (hblanks : IsBlanks blanks)
    (hstop : (codeAfter? d).any (CharClass.property .space).contains = false) :
    (one (.property .space)).Rounds c d := by
  refine rounds_one h (fun char hmem => ?_) hstop
  -- Decided for codes: a statement on characters would be decided for each one that there is.
  exact (by decide : ∀ code ∈ blankChars.map Char.toNat,
    (CharClass.property .space).contains code = true) _ (List.mem_map_of_mem (hblanks char hmem))

theorem leads_colonAhead (h : c.Reads blanks d) (hblanks : IsBlanks blanks)
    (hcolon : d.Reads [':'] e) : (colonAhead fold).Leads c e := by
  have hrounds := rounds_blanks h hblanks (by rw [codeAfter?_of_reads hcolon]; decide)
  exact hrounds.leads_star.seq (moves_symbol hcolon).leads

theorem fails_colonAhead (h : Closed c) : (colonAhead fold).Fails c := by
  obtain ⟨blanks, d, hreads, hblanks, hcode⟩ := h
  obtain ⟨hstop, hne⟩ := (by decide : ∀ code ∈ closers,
    code.any (CharClass.property .space).contains = false ∧ code ≠ some ':'.toNat) _ hcode
  refine (rounds_blanks hreads hblanks hstop).seq_fails ?_
    (fails_symbol (by decide) hne)
  -- Where the blanks go on there is no colon.
  intro f hf
  refine fails_symbol (by decide) fun heq => hf (fails_one ?_)
  rw [heq]
  decide

end Ends

section Numbers

/-- What may follow the digits in a number. -/
def digitStops : List (Option Nat) :=
  ['.', 'e', 'E'].map (some ·.toNat) ++ stops

def fractionStops : List (Option Nat) :=
  ['e', 'E'].map (some ·.toNat) ++ stops

theorem code_of_isDigit {char : Char} (h : char.isDigit = true) :
    char.toNat ∈ List.range' 0x30 10 := by
  rw [Char.isDigit, Bool.and_eq_true, decide_eq_true_eq, decide_eq_true_eq] at h
  rw [List.mem_range'_1]
  exact ⟨h.1, Nat.lt_succ_of_le h.2⟩

variable {c d : Cursor} {digits text : List Char}

theorem contains_digit {char : Char} (h : char.isDigit = true) :
    (CharClass.property .digit).contains char.toNat = true :=
  (by decide : ∀ code ∈ List.range' 0x30 10,
    (CharClass.property .digit).contains code = true) _ (code_of_isDigit h)

theorem rounds_digits (h : c.Reads digits d) (hdigits : ∀ char ∈ digits, char.isDigit = true)
    (hcode : codeAfter? d ∈ digitStops) : digit.Rounds c d :=
  rounds_one h (fun char hmem => contains_digit (hdigits char hmem))
    ((by decide : ∀ code ∈ digitStops,
      code.any (CharClass.property .digit).contains = false) _ hcode)

theorem leads_digits (h : c.Reads digits d) (hdigits : IsDigits digits)
    (hcode : codeAfter? d ∈ digitStops) : (plus digit).Leads c d := by
  obtain ⟨hne, hall⟩ := hdigits
  obtain ⟨char, rest, rfl⟩ := List.exists_cons_of_ne_nil hne
  obtain ⟨hchar, hothers⟩ := List.forall_mem_cons.mp hall
  obtain ⟨e, hfirst, hrest⟩ := h.exists_of_cons
  exact Rounds.leads_plus (moves_one hfirst (contains_digit hchar))
    (rounds_digits hrest hothers hcode)

theorem leads_fraction (htext : IsFraction text) (h : c.Reads text d)
    (hcode : codeAfter? d ∈ fractionStops) :
    fraction.Leads c d ∧ codeAfter? c ∈ digitStops := by
  obtain ⟨hstop, hpoint⟩ := (by decide : ∀ code ∈ fractionStops,
    code ∈ digitStops ∧ code ≠ some '.'.toNat) _ hcode
  cases htext with
  | none =>
      obtain rfl := h.eq_of_nil
      have hnone := (rounds_digits (Cursor.reads_nil d) (by simp) hstop).leads_star
      exact ⟨(Fails.maybe (fails_symbol (by decide) hpoint)).leads.seq hnone, hstop⟩
  | some hdigits =>
      obtain ⟨e, hpoint, hrest⟩ := h.exists_of_cons
      have hdigits := (rounds_digits hrest hdigits.2 hstop).leads_star
      refine ⟨(moves_symbol hpoint).leads.maybe.seq hdigits, ?_⟩
      rw [codeAfter?_of_reads hpoint]
      decide

theorem leads_exponent (htext : IsExponent text) (h : c.Reads text d)
    (hcode : codeAfter? d ∈ stops) :
    (maybe exponent).Leads c d ∧ codeAfter? c ∈ fractionStops := by
  cases htext with
  | none =>
      obtain rfl := h.eq_of_nil
      have hopens := (by decide : ∀ code ∈ stops, exponent.opens code = false) _ hcode
      exact ⟨(Fails.maybe (fails_of_opens hopens)).leads, List.mem_append_right _ hcode⟩
  | @some letter sign digits hletter hsign hdigits =>
      obtain ⟨e, hfirst, hrest⟩ := h.exists_of_cons
      obtain ⟨f, hmiddle, hlast⟩ := hrest.exists_of_append
      obtain ⟨hcontains, hmem⟩ := (by decide : ∀ code ∈ ['e', 'E'].map Char.toNat,
        (exactly false ['E', 'e']).contains code = true ∧ some code ∈ fractionStops) _
          (List.mem_map_of_mem hletter)
      have hsignLeads : (maybe (.one (exactly false ['+', '-']))).Leads e f := by
        simp only [List.mem_cons, List.not_mem_nil, or_false] at hsign
        rcases hsign with rfl | rfl | rfl
        · obtain rfl := hmiddle.eq_of_nil
          obtain ⟨char, rest, rfl⟩ := List.exists_cons_of_ne_nil hdigits.1
          refine (Fails.maybe (fails_one ?_)).leads
          rw [codeAfter?_of_reads hlast, Option.any_some]
          exact (by decide : ∀ code ∈ List.range' 0x30 10,
            (exactly false ['+', '-']).contains code = false) _
            (code_of_isDigit (hdigits.2 char List.mem_cons_self))
        · exact (moves_one hmiddle (by decide)).leads.maybe
        · exact (moves_one hmiddle (by decide)).leads.maybe
      have hdigitsLeads := leads_digits hlast hdigits (List.mem_append_right _ hcode)
      refine ⟨Leads.maybe ((moves_one hfirst hcontains).leads.seq
        (hsignLeads.seq hdigitsLeads)), ?_⟩
      rw [codeAfter?_of_reads hfirst]
      exact hmem

/-- No character of a word stands right before a place. -/
def Fresh (c : Cursor) : Prop :=
  isWordAt (codeBefore? c) = false

theorem moves_wordEdge (hfresh : Fresh c) (hword : isWordAt (codeAfter? c) = true) :
    wordEdge.Moves c c := by
  refine moves_anchor fun origin => ?_
  rw [Anchor.holds, hfresh, hword]
  rfl

theorem isDigits_of_isInt (h : IsInt text) : IsDigits text := by
  rcases h with rfl | ⟨hdigits, -⟩
  · exact isDigits_single (by decide)
  · exact hdigits

theorem fails_hex (hint : IsInt digits) (h : c.Reads digits d) (hedge : wordEdge.Moves c c)
    (hcode : codeAfter? d ∈ digitStops) : hex.Fails c := by
  refine hedge.seq_fails ?_
  rcases hint with rfl | ⟨⟨hne, -⟩, hzero⟩
  · have hopens := (by decide : ∀ code ∈ digitStops,
      (ofList [symbol false 'x', hexDigits, wordEdge]).opens code = false) _ hcode
    exact (moves_symbol h).seq_fails (fails_of_opens hopens)
  · obtain ⟨char, rest, rfl⟩ := List.exists_cons_of_ne_nil hne
    refine Fails.seq (fails_symbol (by decide) ?_)
    rw [codeAfter?_of_reads h]
    intro heq
    have hchar : char = '0' := Char.toNat_inj.mp (Option.some.inj heq)
    exact hzero (congrArg some hchar)

theorem leads_number (htext : IsNumber text) (h : c.Reads text d) (hfresh : Fresh c)
    (hcode : codeAfter? d ∈ stops) : number.Leads c d := by
  obtain ⟨hint, hfraction, hexponent⟩ := htext
  obtain ⟨f, hfront, hlast⟩ := h.exists_of_append
  obtain ⟨e, hfirst, hmiddle⟩ := hfront.exists_of_append
  obtain ⟨hexponentLeads, hcode⟩ := leads_exponent hexponent hlast hcode
  obtain ⟨hfractionLeads, hcode⟩ := leads_fraction hfraction hmiddle hcode
  have hedge : wordEdge.Moves c c := by
    obtain ⟨hne, hall⟩ := isDigits_of_isInt hint
    obtain ⟨char, rest, rfl⟩ := List.exists_cons_of_ne_nil hne
    refine moves_wordEdge hfresh ?_
    rw [codeAfter?_of_reads hfirst]
    exact (by decide : ∀ code ∈ List.range' 0x30 10, isWordAt (some code) = true) _
      (code_of_isDigit (hall char List.mem_cons_self))
  have hdecimal : decimal.Leads c f :=
    hedge.leads.seq ((leads_digits hfirst (isDigits_of_isInt hint) hcode).seq hfractionLeads)
  exact (fails_hex hint hfirst hedge hcode).alt_leads (hdecimal.alt.seq hexponentLeads)

end Numbers

section Words

variable {c d e : Cursor} {word : List Char} {tail : List Expr}

theorem moves_letters (h : c.Reads word d) (htail : (ofList tail).Moves d e) :
    (ofList (word.map (symbol true) ++ tail)).Moves c e := by
  induction word generalizing c with
  | nil =>
      obtain rfl := h.eq_of_nil
      exact htail
  | cons char word ih =>
      obtain ⟨f, hfirst, hrest⟩ := h.exists_of_cons
      exact (moves_symbol hfirst).ofList (ih hrest)

theorem moves_wordEdge_of_stop (hword : isWordAt (codeBefore? c) = true)
    (hcode : codeAfter? c ∈ stops) : wordEdge.Moves c c := by
  have hstop := (by decide : ∀ code ∈ stops, isWordAt code = false) _ hcode
  refine moves_anchor fun origin => ?_
  rw [Anchor.holds, hword, hstop]
  rfl

/-- The edges of a word that starts with one letter, ends with another and may end here. -/
theorem moves_edges (first last : Char) (front back : List Char)
    (hstart : c.Reads (first :: back) d) (hend : c.Reads (front ++ [last]) d)
    (hfirst : isWordAt (some first.toNat) = true) (hlast : isWordAt (some last.toNat) = true)
    (hfresh : Fresh c) (hcode : codeAfter? d ∈ stops) :
    wordEdge.Moves c c ∧ wordEdge.Moves d d := by
  rw [← codeAfter?_of_reads hstart] at hfirst
  rw [← codeBefore?_of_reads hend] at hlast
  exact ⟨moves_wordEdge hfresh hfirst, moves_wordEdge_of_stop hlast hcode⟩

theorem moves_boolean (hmem : word ∈ ["true".toList, "false".toList]) (h : c.Reads word d)
    (hfresh : Fresh c) (hcode : codeAfter? d ∈ stops) : boolean.Moves c d := by
  have hletters : (ofList (word.map (symbol true))).Moves c d := by
    simpa using moves_letters h (moves_ofList_nil d)
  simp only [List.mem_cons, List.not_mem_nil, or_false] at hmem
  rcases hmem with rfl | rfl
  · obtain ⟨hstart, hend⟩ := moves_edges 't' 'e' ['t', 'r', 'u'] ['r', 'u', 'e'] h h
      (by decide) (by decide) hfresh hcode
    refine hstart.ofList ((hletters.alt (fails_of_opens ?_)).ofList hend)
    rw [codeAfter?_of_reads h]
    decide
  · obtain ⟨hstart, hend⟩ := moves_edges 'f' 'e' ['f', 'a', 'l', 's'] ['a', 'l', 's', 'e'] h h
      (by decide) (by decide) hfresh hcode
    refine hstart.ofList ((Fails.alt_moves (fails_of_opens ?_) hletters).ofList hend)
    rw [codeAfter?_of_reads h]
    decide

theorem moves_null (h : c.Reads "null".toList d) (hfresh : Fresh c) (hcode : codeAfter? d ∈ stops) :
    null.Moves c d := by
  obtain ⟨hstart, hend⟩ := moves_edges 'n' 'l' ['n', 'u', 'l'] ['u', 'l', 'l'] h h
    (by decide) (by decide) hfresh hcode
  exact hstart.ofList (moves_letters h hend)

end Words

end Languages.Json

end Highlight
