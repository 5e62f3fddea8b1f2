import Highlight.Proofs.Scan.Pieces

/-!
JSON documents as RFC 8259 defines them, cut into their lexemes. Each rule of its grammar says what
text it stands for and of which lexemes that consists; a minus sign and the blanks around values
belong to none.
-/

namespace Highlight.Languages.Json

def blankChars : List Char :=
  [' ', '\t', '\n', '\r']

def IsBlanks (text : List Char) : Prop :=
  ∀ char ∈ text, char ∈ blankChars

/-- One or more digits. -/
def IsDigits (text : List Char) : Prop :=
  text ≠ [] ∧ ∀ char ∈ text, char.isDigit = true

theorem isDigits_single {char : Char} (h : char.isDigit = true) : IsDigits [char] :=
  ⟨List.cons_ne_nil char [], List.forall_mem_singleton.mpr h⟩

/-- A zero, or digits that do not start with one. -/
def IsInt (text : List Char) : Prop :=
  text = ['0'] ∨ IsDigits text ∧ text.head? ≠ some '0'

inductive IsFraction : List Char → Prop
  | none : IsFraction []
  | some {digits : List Char} (isDigits : IsDigits digits) : IsFraction ('.' :: digits)

inductive IsExponent : List Char → Prop
  | none : IsExponent []
  | some {letter : Char} {sign digits : List Char} (letter_mem : letter ∈ ['e', 'E'])
      (sign_mem : sign ∈ [[], ['+'], ['-']]) (isDigits : IsDigits digits) :
      IsExponent (letter :: (sign ++ digits))

/-- A number without its minus sign. -/
inductive IsNumber : List Char → Prop
  | mk {int fraction exponent : List Char} (isInt : IsInt int) (isFraction : IsFraction fraction)
      (isExponent : IsExponent exponent) : IsNumber (int ++ fraction ++ exponent)

def isHex (char : Char) : Bool :=
  char.isDigit || ('a' ≤ char && char ≤ 'f') || ('A' ≤ char && char ≤ 'F')

/-- The inside of a string. Quotes, backslashes and controls stand there in escapes only. -/
inductive IsContent : List Char → Prop
  | nil : IsContent []
  | plain {char : Char} {rest : List Char} (visible : 0x20 ≤ char.toNat) (not_quote : char ≠ '"')
      (not_backslash : char ≠ '\\') (content : IsContent rest) : IsContent (char :: rest)
  | escape {char : Char} {rest : List Char}
      (mem : char ∈ ['"', '\\', '/', 'b', 'f', 'n', 'r', 't']) (content : IsContent rest) :
      IsContent ('\\' :: char :: rest)
  | unicode {code rest : List Char} (length_eq : code.length = 4)
      (hex : ∀ char ∈ code, isHex char = true) (content : IsContent rest) :
      IsContent ('\\' :: 'u' :: (code ++ rest))

inductive IsString : List Char → Prop
  | mk {content : List Char} (isContent : IsContent content) :
      IsString ('"' :: (content ++ ['"']))

/-- The names of literals, with what they are. -/
def words : List (String × List Char) :=
  [("boolean", "true".toList), ("boolean", "false".toList), ("null", "null".toList)]

/-- The bracket that opens an object, whose items have names, or an array. -/
def opening (named : Bool) : Piece :=
  .lexeme "punctuation" [if named then '\x7b' else '[']

def closing (named : Bool) : Piece :=
  .lexeme "punctuation" [if named then '\x7d' else ']']

def comma : Piece :=
  .lexeme "punctuation" [',']

def colon : Piece :=
  .lexeme "operator" [':']

/-- The parts of a document: values, what stands between the commas of an object or an array,
and what stands between their brackets. -/
inductive Part where
  | value
  | item (named : Bool)
  | items (named : Bool)

inductive Phrase : Part → List Piece → Prop
  | word {name : String} {text : List Char} (mem : (name, text) ∈ words) :
      Phrase .value [.lexeme name text]
  | number {text : List Char} (isNumber : IsNumber text) : Phrase .value [.lexeme "number" text]
  | negative {text : List Char} (isNumber : IsNumber text) :
      Phrase .value [.gap '-', .lexeme "number" text]
  | string {text : List Char} (isString : IsString text) : Phrase .value [.lexeme "string" text]
  | empty (named : Bool) {blanks : List Char} (isBlanks : IsBlanks blanks) :
      Phrase .value (opening named :: (Piece.gaps blanks ++ [closing named]))
  | full {named : Bool} {pieces : List Piece} (items : Phrase (.items named) pieces) :
      Phrase .value (opening named :: (pieces ++ [closing named]))
  | element {before after : List Char} {pieces : List Piece} (isBlanks : IsBlanks before)
      (value : Phrase .value pieces) (isBlanks_after : IsBlanks after) :
      Phrase (.item false) (Piece.gaps before ++ pieces ++ Piece.gaps after)
  | member {before key after : List Char} {pieces : List Piece} (isBlanks : IsBlanks before)
      (isString : IsString key) (isBlanks_after : IsBlanks after)
      (element : Phrase (.item false) pieces) :
      Phrase (.item true)
        (Piece.gaps before ++ .lexeme "property" key :: (Piece.gaps after ++ colon :: pieces))
  | last {named : Bool} {pieces : List Piece} (item : Phrase (.item named) pieces) :
      Phrase (.items named) pieces
  | more {named : Bool} {pieces others : List Piece} (item : Phrase (.item named) pieces)
      (items : Phrase (.items named) others) : Phrase (.items named) (pieces ++ comma :: others)

/-- A text is a document with the given pieces: a value, with blanks around it. -/
def IsDocument (text : String) (pieces : List Piece) : Prop :=
  Phrase (.item false) pieces ∧ Piece.textOf pieces = text.toList

/-- What belongs to no lexeme of a document is blanks and minus signs. -/
theorem Phrase.blank_or_minus {part : Part} {pieces : List Piece} (h : Phrase part pieces) :
    ∀ char ∈ pieces.filterMap Piece.gap?, char ∈ blankChars ∨ char = '-' := by
  induction h with
  | word | number | string => simp [Piece.gap?]
  | negative => simp [Piece.gap?]
  | empty named hblanks =>
      simp only [opening, closing, Piece.gap?, List.filterMap_cons, List.filterMap_append,
        Piece.filterMap_gap?_gaps, List.filterMap_nil, List.append_nil]
      exact fun char hmem => .inl (hblanks char hmem)
  | full _ ih => simpa [opening, closing, Piece.gap?] using ih
  | element hbefore _ hafter ih =>
      simp only [List.filterMap_append, Piece.filterMap_gap?_gaps, List.mem_append]
      rintro char ((hmem | hmem) | hmem)
      · exact .inl (hbefore char hmem)
      · exact ih char hmem
      · exact .inl (hafter char hmem)
  | member hbefore _ hafter _ ih =>
      simp only [colon, Piece.gap?, List.filterMap_cons, List.filterMap_append,
        Piece.filterMap_gap?_gaps, List.mem_append]
      rintro char (hmem | hmem | hmem)
      · exact .inl (hbefore char hmem)
      · exact .inl (hafter char hmem)
      · exact ih char hmem
  | last _ ih => exact ih
  | more _ _ ih ih' =>
      simp only [comma, Piece.gap?, List.filterMap_cons, List.filterMap_append, List.mem_append]
      rintro char (hmem | hmem)
      · exact ih char hmem
      · exact ih' char hmem

end Highlight.Languages.Json
