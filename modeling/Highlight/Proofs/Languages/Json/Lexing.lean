import Highlight.Proofs.Languages.Json.Lexemes
import Highlight.Proofs.Languages.Requests

/-!
The lexing of JSON. From a place where a phrase of a document stands, the patterns cut it into its
pieces (`cuts_of_phrase`), by induction on the phrase. So the nodes of a document are its lexemes,
with blanks and minus signs in between (`tokenize_document`).
-/

namespace Highlight

open Regex Regex.Expr

namespace Languages.Json

open Outline

variable {c d e : Cursor} {text : List Char}

/-- Patterns that cannot begin with the character at a place fail there. -/
theorem fails_of_code {before : List Outline} {code : Option Nat} (hcode : codeAfter? c = code)
    (h : ∀ o ∈ before, o.expr.opens code = false) : ∀ o ∈ before, o.expr.Fails c := by
  subst hcode
  exact fun o hmem => fails_of_opens (h o hmem)

theorem takes_punctuation {char : Char} (hchar : char ∈ ['\x7b', '\x7d', '[', ']', ','])
    (h : c.Reads [char] d) : Takes outlines c "punctuation" d := by
  obtain ⟨hcontains, hbefore⟩ := (by decide +kernel :
    ∀ code ∈ ['\x7b', '\x7d', '[', ']', ','].map Char.toNat,
      (exactly false ['\x7b', '\x7d', '[', ']', ')', ';', ',']).contains code = true ∧
        ∀ o ∈ outlines.take 3, o.expr.opens (some code) = false) _ (List.mem_map_of_mem hchar)
  exact ⟨outlines.take 3, _, outlines.drop 4, rfl, rfl,
    fails_of_code (codeAfter?_of_reads h) hbefore, (moves_one h hcontains).leads, by simp⟩

theorem takes_colon (h : c.Reads [':'] d) : Takes outlines c "operator" d :=
  ⟨outlines.take 4, _, outlines.drop 5, rfl, rfl,
    fails_of_code (codeAfter?_of_reads h) (by decide), (moves_symbol h).leads, by simp⟩

theorem IsNumber.exists_digit (h : IsNumber text) :
    ∃ char rest, text = char :: rest ∧ char.isDigit = true := by
  obtain ⟨hint, -, -⟩ := h
  obtain ⟨hne, hall⟩ := isDigits_of_isInt hint
  obtain ⟨char, rest, rfl⟩ := List.exists_cons_of_ne_nil hne
  exact ⟨char, _, rfl, hall char List.mem_cons_self⟩

theorem takes_number (htext : IsNumber text) (h : c.Reads text d) (hfresh : Fresh c)
    (hclosed : Closed d) : Takes outlines c "number" d := by
  obtain ⟨char, rest, rfl, hchar⟩ := htext.exists_digit
  have hbefore := (by decide +kernel : ∀ code ∈ List.range' 0x30 10, ∀ o ∈ outlines.take 2,
    o.expr.opens (some code) = false) _ (code_of_isDigit hchar)
  exact ⟨outlines.take 2, _, outlines.drop 3, rfl, rfl,
    fails_of_code (codeAfter?_of_reads h) hbefore,
    leads_number htext h hfresh hclosed.codeAfter?_mem, by simp⟩

theorem takes_word {name : String} (hmem : (name, text) ∈ words) (h : c.Reads text d)
    (hfresh : Fresh c) (hclosed : Closed d) : Takes outlines c name d := by
  have hcode := hclosed.codeAfter?_mem
  simp only [words, List.mem_cons, Prod.mk.injEq, List.not_mem_nil, or_false] at hmem
  rcases hmem with ⟨rfl, rfl⟩ | ⟨rfl, rfl⟩ | ⟨rfl, rfl⟩
  · exact ⟨outlines.take 5, _, outlines.drop 6, rfl, rfl,
      fails_of_code (codeAfter?_of_reads h) (by decide),
      (moves_boolean (by simp) h hfresh hcode).leads, by simp⟩
  · exact ⟨outlines.take 5, _, outlines.drop 6, rfl, rfl,
      fails_of_code (codeAfter?_of_reads h) (by decide),
      (moves_boolean (by simp) h hfresh hcode).leads, by simp⟩
  · exact ⟨outlines.take 6, _, [], rfl, rfl,
      fails_of_code (codeAfter?_of_reads h) (by decide),
      (moves_null h hfresh hcode).leads, by simp⟩

theorem takes_string (htext : IsString text) (h : c.Reads text d) (hclosed : Closed d) :
    Takes outlines c "string" d := by
  refine ⟨[property], string, outlines.drop 2, rfl, rfl, ?_, ?_, ?_⟩
  · intro o hmem
    obtain rfl := List.mem_singleton.mp hmem
    exact fails_quoted htext h (fails_colonAhead hclosed).ahead
  · exact (moves_quoted htext h (fails_colonAhead hclosed).not_ahead).leads
  · intro _
    refine fails_of_opens ?_
    exact (by decide : ∀ code ∈ stops, string.expr.opens code = false) _
      hclosed.codeAfter?_mem

/-- A string with a colon behind it, after blanks, is a property. -/
theorem takes_property {blanks : List Char} (htext : IsString text) (h : c.Reads text d)
    (hblanks : IsBlanks blanks) (hreads : d.Reads blanks e) {f : Cursor}
    (hcolon : e.Reads [':'] f) : Takes outlines c "property" d := by
  refine ⟨[], property, outlines.drop 1, rfl, rfl, by simp, ?_, by simp [property]⟩
  exact (moves_quoted htext h (leads_colonAhead hreads hblanks hcolon).ahead).leads

theorem fresh_of_reads {front : List Char} {char : Char} (h : c.Reads (front ++ [char]) d)
    (hchar : char ∈ ['-', '\x7b', '[', ':', ','] ++ blankChars) : Fresh d := by
  rw [Fresh, codeBefore?_of_reads h]
  exact (by decide : ∀ code ∈ (['-', '\x7b', '[', ':', ','] ++ blankChars).map Char.toNat,
    isWordAt (some code) = false) _ (List.mem_map_of_mem hchar)

theorem fresh_of_single {char : Char} (h : c.Reads [char] d)
    (hchar : char ∈ ['-', '\x7b', '[', ':', ','] ++ blankChars) : Fresh d :=
  fresh_of_reads (List.nil_append [char] ▸ h) hchar

theorem cuts_gap {char : Char} (hchar : char ∈ '-' :: blankChars) (h : c.Reads [char] d) :
    Cuts outlines c [.gap char] d := by
  have hopens := (by decide +kernel : ∀ code ∈ ('-' :: blankChars).map Char.toNat, ∀ o ∈ outlines,
    o.expr.opens (some code) = false) _ (List.mem_map_of_mem hchar)
  exact .gap h (fails_of_code (codeAfter?_of_reads h) hopens) (.nil d)

theorem cuts_lexeme {name : String} (h : c.Reads text d) (hne : text ≠ [])
    (htakes : Takes outlines c name d) : Cuts outlines c [.lexeme name text] d :=
  .lexeme h hne htakes (.nil d)

theorem cuts_blanks {blanks : List Char} (hblanks : IsBlanks blanks) (h : c.Reads blanks d) :
    Cuts outlines c (Piece.gaps blanks) d := by
  induction blanks generalizing c with
  | nil =>
      obtain rfl := h.eq_of_nil
      exact .nil d
  | cons char blanks ih =>
      obtain ⟨hchar, hothers⟩ := List.forall_mem_cons.mp hblanks
      obtain ⟨e, hfirst, hrest⟩ := h.exists_of_cons
      exact (cuts_gap (List.mem_cons_of_mem _ hchar) hfirst).append (ih hothers hrest)

/-- Behind blanks a place is as free of words as before them. -/
theorem fresh_of_blanks {blanks : List Char} (hblanks : IsBlanks blanks) (h : c.Reads blanks d)
    (hfresh : Fresh c) : Fresh d := by
  rcases List.eq_nil_or_concat blanks with rfl | ⟨front, char, rfl⟩
  · exact h.eq_of_nil ▸ hfresh
  · rw [List.concat_eq_append] at h hblanks
    exact fresh_of_reads h (List.mem_append_right _ (hblanks char (by simp)))

theorem cuts_number (htext : IsNumber text) (h : c.Reads text d) (hfresh : Fresh c)
    (hclosed : Closed d) : Cuts outlines c [.lexeme "number" text] d := by
  refine cuts_lexeme h ?_ (takes_number htext h hfresh hclosed)
  obtain ⟨char, rest, rfl, -⟩ := htext.exists_digit
  simp

theorem IsString.ne_nil (h : IsString text) : text ≠ [] := by
  obtain ⟨-⟩ := h
  simp

/-- What stands between brackets is cut into its pieces, brackets included. -/
theorem cuts_bracketed {named : Bool} {pieces : List Piece}
    (hreads : c.Reads (Piece.textOf (opening named :: (pieces ++ [closing named]))) d)
    (hinside : ∀ e f, e.Reads (Piece.textOf pieces) f → Fresh e → Closed f →
      Cuts outlines e pieces f) :
    Cuts outlines c (opening named :: (pieces ++ [closing named])) d := by
  rw [Piece.textOf_cons, Piece.textOf_append] at hreads
  obtain ⟨e, hopen, hrest⟩ := hreads.exists_of_append
  obtain ⟨f, hmiddle, hclose⟩ := hrest.exists_of_append
  rw [Piece.textOf_cons, Piece.textOf_nil, List.append_nil] at hclose
  have hfresh : Fresh e := by
    cases named with
    | false => exact fresh_of_single hopen (by decide)
    | true => exact fresh_of_single hopen (by decide)
  have hclosed : Closed f := by
    cases named with
    | false => exact closed_of_reads hclose (by decide)
    | true => exact closed_of_reads hclose (by decide)
  have hopening : Takes outlines c "punctuation" e :=
    takes_punctuation (by cases named <;> decide) hopen
  have hclosing : Takes outlines f "punctuation" d :=
    takes_punctuation (by cases named <;> decide) hclose
  exact .lexeme hopen (by simp) hopening
    ((hinside e f hmiddle hfresh hclosed).append (cuts_lexeme hclose (by simp) hclosing))

/-- The patterns cut a phrase into its pieces, if it does not stand right behind a word and a value
may end behind it. -/
theorem cuts_of_phrase {part : Part} {pieces : List Piece} (h : Phrase part pieces)
    (hreads : c.Reads (Piece.textOf pieces) d) (hfresh : Fresh c) (hclosed : Closed d) :
    Cuts outlines c pieces d := by
  -- Each part is fresh where it starts and closed where it ends, by what stands around it.
  induction h generalizing c d with
  | @word name text hmem =>
      rw [Piece.textOf_cons, Piece.textOf_nil, List.append_nil] at hreads
      refine cuts_lexeme hreads ?_ (takes_word hmem hreads hfresh hclosed)
      rintro rfl
      simp [words] at hmem
  | number htext =>
      rw [Piece.textOf_cons, Piece.textOf_nil, List.append_nil] at hreads
      exact cuts_number htext hreads hfresh hclosed
  | negative htext =>
      rw [Piece.textOf_cons, Piece.textOf_cons, Piece.textOf_nil, List.append_nil] at hreads
      obtain ⟨e, hminus, hrest⟩ := hreads.exists_of_append
      have hafter : Fresh e := fresh_of_single hminus (by decide)
      exact (cuts_gap List.mem_cons_self hminus).append (cuts_number htext hrest hafter hclosed)
  | string htext =>
      rw [Piece.textOf_cons, Piece.textOf_nil, List.append_nil] at hreads
      exact cuts_lexeme hreads htext.ne_nil (takes_string htext hreads hclosed)
  | empty named hblanks =>
      refine cuts_bracketed hreads fun e f hmiddle _ _ => ?_
      rw [Piece.textOf_gaps] at hmiddle
      exact cuts_blanks hblanks hmiddle
  | full _ ih => exact cuts_bracketed hreads fun e f hmiddle he hf => ih hmiddle he hf
  | element hbefore _ hafter ih =>
      simp only [Piece.textOf_append, Piece.textOf_gaps] at hreads
      obtain ⟨f, hfront, hlast⟩ := hreads.exists_of_append
      obtain ⟨e, hfirst, hmiddle⟩ := hfront.exists_of_append
      have hvalue := ih hmiddle (fresh_of_blanks hbefore hfirst hfresh)
        (hclosed.of_blanks hlast hafter)
      exact ((cuts_blanks hbefore hfirst).append hvalue).append (cuts_blanks hafter hlast)
  | member hbefore hkey hafter _ ih =>
      simp only [Piece.textOf_append, Piece.textOf_cons, Piece.textOf_gaps] at hreads
      obtain ⟨c₁, hfirst, hreads⟩ := hreads.exists_of_append
      obtain ⟨c₂, hname, hreads⟩ := hreads.exists_of_append
      obtain ⟨c₃, hmiddle, hreads⟩ := hreads.exists_of_append
      obtain ⟨c₄, hcolon, hlast⟩ := hreads.exists_of_append
      have hproperty := takes_property hkey hname hafter hmiddle hcolon
      have hvalue := ih hlast (fresh_of_single hcolon (by decide)) hclosed
      exact (cuts_blanks hbefore hfirst).append (.lexeme hname hkey.ne_nil hproperty
        ((cuts_blanks hafter hmiddle).append
          (.lexeme hcolon (by simp) (takes_colon hcolon) hvalue)))
  | last _ ih => exact ih hreads hfresh hclosed
  | more _ _ ih ih' =>
      rw [Piece.textOf_append, Piece.textOf_cons] at hreads
      obtain ⟨e, hfirst, hrest⟩ := hreads.exists_of_append
      obtain ⟨f, hcomma, hlast⟩ := hrest.exists_of_append
      have hcuts := ih hfirst hfresh (closed_of_reads hcomma (by decide))
      have hothers := ih' hlast (fresh_of_single hcomma (by decide)) hclosed
      exact hcuts.append (.lexeme hcomma (by simp) (takes_punctuation (by decide) hcomma) hothers)

theorem exists_grammar : ∃ g, grammar = .ok g ∧ g.outlines = outlines := by
  have hcheck : grammar.toOption.map (·.outlines) = some outlines := by decide +kernel
  obtain ⟨g, hg, houtlines⟩ := Option.map_eq_some_iff.mp hcheck
  exact ⟨g, eq_ok_of_toOption_eq_some hg, houtlines⟩

theorem exists_tokenizeBy {g : Grammar} (hg : grammar = .ok g) {text : String}
    {nodes : List Node} (hnodes : g.tokenize text = .ok nodes) :
    ∃ r, registry.run (Session.tokenizeBy "json" text) = some (.ok (.ok nodes), r) := by
  have hbuild : build? "json" = some (Build.ofExcept (.ok g)) := by
    rw [build?, hg]
  exact Languages.exists_tokenizeBy hbuild rfl hnodes

/-- Every JSON document comes out as its lexemes, in order and where they stand: strings before a
colon as properties, other strings as such, numbers without their signs, words, brackets, commas and
colons. Blanks and minus signs are all that is left for literal text. -/
theorem tokenize_document {text : String} {pieces : List Piece} (h : IsDocument text pieces)
    (hwidth : Text.width text.toList < UInt32.size) :
    ∃ nodes r, registry.run (Session.tokenizeBy "json" text) = some (.ok (.ok nodes), r) ∧
      (nodes.filterMap Node.matched?).map Matched.span = Piece.spans 0 pieces ∧
      Node.literalText nodes = pieces.filterMap Piece.gap? ∧
      (∀ char ∈ Node.literalText nodes, char ∈ blankChars ∨ char = '-') ∧
      TextRange.Tile 0 (nodes.map (·.range)) (Text.width text.toList) := by
  obtain ⟨hphrase, htext⟩ := h
  obtain ⟨g, hg, houtlines⟩ := exists_grammar
  have hafter : (Cursor.start (Piece.textOf pieces)).after = Piece.textOf pieces ++ [] :=
    (List.append_nil _).symm
  obtain ⟨d, hreads, hend⟩ := Cursor.exists_reads hafter
  have hclosed : Closed d := by
    refine ⟨[], d, Cursor.reads_nil d, by simp [IsBlanks], ?_⟩
    rw [codeAfter?, hend]
    decide
  have hcuts := cuts_of_phrase hphrase hreads rfl hclosed
  rw [← houtlines] at hcuts
  have hplain : ∀ o ∈ g.outlines, o.isPlain = true := by
    rw [houtlines]
    decide
  rw [← htext] at hwidth ⊢
  obtain ⟨nodes, hnodes, hspans, hliterals, htile⟩ :=
    Grammar.exists_nodes_of_cuts hplain hwidth hend hcuts
  rw [htext, String.ofList_toList] at hnodes
  obtain ⟨r, hrun⟩ := exists_tokenizeBy hg hnodes
  exact ⟨nodes, r, hrun, hspans, hliterals, hliterals ▸ hphrase.blank_or_minus, htile⟩

/-- A name for a list that holds a number and a string with a quote and a colon in it. -/
def sample : String :=
  "\x7b\"é\" : [-0.5e+1,\"\\\":\"]\x7d"

theorem tokenize_document_sample :
    ∃ pieces nodes r, IsDocument sample pieces ∧
      registry.run (Session.tokenizeBy "json" sample) = some (.ok (.ok nodes), r) ∧
      (nodes.filterMap Node.matched?).map Matched.span =
        [⟨"punctuation", "\x7b", 0, 1⟩, ⟨"property", "\"é\"", 1, 5⟩, ⟨"operator", ":", 6, 7⟩,
          ⟨"punctuation", "[", 8, 9⟩, ⟨"number", "0.5e+1", 10, 16⟩, ⟨"punctuation", ",", 16, 17⟩,
          ⟨"string", "\"\\\":\"", 17, 22⟩, ⟨"punctuation", "]", 22, 23⟩,
          ⟨"punctuation", "\x7d", 23, 24⟩] ∧
      Node.literalText nodes = [' ', ' ', '-'] := by
  have hnone : IsBlanks [] := by simp [IsBlanks]
  have hspace : IsBlanks [' '] := by simp [IsBlanks, blankChars]
  have hfraction : IsFraction ['.', '5'] := .some (isDigits_single (by decide))
  have hexponent : IsExponent ('e' :: (['+'] ++ ['1'])) :=
    .some (by decide) (by decide) (isDigits_single (by decide))
  have hkey : IsString ('"' :: (['é'] ++ ['"'])) :=
    .mk (.plain (by decide) (by decide) (by decide) .nil)
  have hstring : IsString ('"' :: (['\\', '"', ':'] ++ ['"'])) :=
    .mk (.escape (by decide) (.plain (by decide) (by decide) (by decide) .nil))
  have hnumber := Phrase.element hnone (.negative (.mk (.inl rfl) hfraction hexponent)) hnone
  have harray := Phrase.full (.more hnumber (.last (.element hnone (.string hstring) hnone)))
  have hobject := Phrase.full (.last (.member hnone hkey hspace (.element hspace harray hnone)))
  have hdocument : IsDocument sample _ := ⟨.element hnone hobject hnone, by decide⟩
  obtain ⟨nodes, r, hrun, hspans, hliterals, -⟩ := tokenize_document hdocument (by decide)
  refine ⟨_, nodes, r, hdocument, hrun, ?_, ?_⟩
  · rw [hspans]
    decide
  · rw [hliterals]
    decide

end Languages.Json

end Highlight
