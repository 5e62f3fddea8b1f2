import Highlight.Proofs.Compose.Insertion
import Mathlib.Data.List.Find

/-!
Tokens that are inserted one after another, each right before another one. Each insertion demands
that the grammar has the one token and lacks the other. The first demand that the grammar does not
meet is the failure of the whole; if it meets all of them, the tokens are inserted and all others
stay as they are (`Grammar.insertAll_spec`).
-/

namespace Highlight

/-- What must be so of the tokens of a grammar for another one to be put among them. -/
inductive Demand where
  | has (name : String)
  | lacks (name : String)
deriving DecidableEq

namespace Demand

def Holds (g : Grammar) : Demand → Prop
  | .has name => name ∈ g.tokenNames
  | .lacks name => name ∉ g.tokenNames

instance (g : Grammar) : DecidablePred (Holds g)
  | .has name => inferInstanceAs (Decidable (name ∈ g.tokenNames))
  | .lacks name => inferInstanceAs (Decidable (name ∉ g.tokenNames))

def name : Demand → String
  | .has name => name
  | .lacks name => name

/-- The failure of a language whose base does not meet the demand. -/
def error (language : String) : Demand → GrammarError
  | .has name => .anchorNotFound language name
  | .lacks name => .duplicateToken language name

/-- The first of some demands that a grammar does not meet. -/
def firstBroken? (g : Grammar) (demands : List Demand) : Option Demand :=
  demands.find? fun demand => ¬ demand.Holds g

/-- What it takes to insert tokens of some names, each before one of another name. -/
def ofPairs (pairs : List (String × String)) : List Demand :=
  pairs.flatMap fun (name, anchor) => [.has anchor, .lacks name]

theorem mem_ofPairs_iff {demand : Demand} {pairs : List (String × String)} :
    demand ∈ ofPairs pairs ↔ ∃ pair ∈ pairs, demand = .has pair.2 ∨ demand = .lacks pair.1 := by
  simp [ofPairs]

theorem firstBroken?_cons (g : Grammar) (demand : Demand) (demands : List Demand) :
    firstBroken? g (demand :: demands) =
      if demand.Holds g then firstBroken? g demands else some demand := by
  rw [firstBroken?, List.find?_cons, firstBroken?]
  by_cases h : demand.Holds g
  · simp [h]
  · simp [h]

theorem firstBroken?_eq_none_iff {g : Grammar} {demands : List Demand} :
    firstBroken? g demands = none ↔ ∀ demand ∈ demands, demand.Holds g := by
  simp [firstBroken?]

theorem firstBroken?_congr {g other : Grammar} {demands : List Demand}
    (h : ∀ demand ∈ demands, demand.Holds g ↔ demand.Holds other) :
    firstBroken? g demands = firstBroken? other demands := by
  apply List.find?_congr
  intro demand hmem
  simp only [h demand hmem]

theorem holds_congr {g other : Grammar} {demand : Demand}
    (h : demand.name ∈ g.tokenNames ↔ demand.name ∈ other.tokenNames) :
    demand.Holds g ↔ demand.Holds other := by
  cases demand with
  | has name => exact h
  | lacks name => exact not_congr h

end Demand

/-- Names of tokens to be inserted, each with the one to insert it before: they all differ. -/
structure Separate (pairs : List (String × String)) : Prop where
  names : (pairs.map (·.1)).Nodup
  anchors : (pairs.map (·.2)).Nodup
  apart : ∀ anchor ∈ pairs.map (·.2), anchor ∉ pairs.map (·.1)
  top : ∀ anchor ∈ pairs.map (·.2), '/' ∉ anchor.toList

/-- The names of tokens to be inserted, each with the one to insert it before. -/
def Token.withAnchors (insertions : List (Token × String)) : List (String × String) :=
  insertions.map fun (token, anchor) => (token.name, anchor)

theorem Separate.tail {pair : String × String} {pairs : List (String × String)}
    (h : Separate (pair :: pairs)) : Separate pairs where
  names := (List.nodup_cons.mp h.names).2
  anchors := (List.nodup_cons.mp h.anchors).2
  apart anchor hmem hname :=
    h.apart anchor (List.mem_cons_of_mem _ hmem) (List.mem_cons_of_mem _ hname)
  top anchor hmem := h.top anchor (List.mem_cons_of_mem _ hmem)

/-- Two that are side by side stay so if another one comes before a third. -/
theorem infix_insert {α : Type} {a b c new : α} {before after : List α} (hne : b ≠ c)
    (h : [a, b] <:+: before ++ c :: after) : [a, b] <:+: before ++ new :: c :: after := by
  induction before with
  | nil => exact List.infix_cons h
  | cons first before ih =>
      rcases List.infix_cons_iff.mp h with hprefix | hinfix
      · obtain ⟨hfirst, hrest⟩ := List.cons_prefix_cons.mp hprefix
        cases before with
        | nil => exact absurd (List.cons_prefix_cons.mp hrest).1 hne
        | cons second before =>
            obtain ⟨hsecond, -⟩ := List.cons_prefix_cons.mp hrest
            rw [hfirst, hsecond]
            exact ⟨[], before ++ new :: c :: after, by simp⟩
      · exact List.infix_cons (ih hinfix)

namespace Grammar

/-- Insert tokens one after another, each right before the one of a name. -/
def insertAll (g : Grammar) : List (Token × String) → Except GrammarError Grammar
  | [] => .ok g
  | (token, anchor) :: rest => do (← g.insert .before anchor [token]).insertAll rest

/-- A grammar with tokens of other names inserted: all else is as before. -/
structure Receives (g other : Grammar) (pairs : List (String × String)) : Prop where
  name_eq : other.name = g.name
  parent_eq : other.parent = g.parent
  sublist : g.tokenNames.Sublist other.tokenNames
  mem_iff : ∀ name, name ∈ other.tokenNames ↔ name ∈ g.tokenNames ∨ name ∈ pairs.map (·.1)
  find?_eq : ∀ name ∉ pairs.map (·.1), other.find? name = g.find? name
  beside : ∀ pair ∈ pairs, [pair.1, pair.2] <:+: other.tokenNames
  keeps : ∀ name anchor, anchor ∉ pairs.map (·.2) → [name, anchor] <:+: g.tokenNames →
    [name, anchor] <:+: other.tokenNames

variable {g middle other : Grammar} {pair : String × String} {pairs : List (String × String)}
  {anchor : String} {token : Token}

theorem Receives.refl (g : Grammar) : g.Receives g [] where
  name_eq := rfl
  parent_eq := rfl
  sublist := List.Sublist.refl _
  mem_iff := by simp
  find?_eq _ _ := rfl
  beside := by simp
  keeps _ _ _ h := h

theorem Receives.cons (h : g.Receives middle [pair]) (hrest : middle.Receives other pairs)
    (hseparate : Separate (pair :: pairs)) : g.Receives other (pair :: pairs) where
  name_eq := hrest.name_eq.trans h.name_eq
  parent_eq := hrest.parent_eq.trans h.parent_eq
  sublist := h.sublist.trans hrest.sublist
  mem_iff name := by
    rw [hrest.mem_iff, h.mem_iff, List.map_cons, List.map_cons, List.map_nil, List.mem_singleton,
      List.mem_cons, or_assoc]
  find?_eq name hname := by
    rw [List.map_cons, List.mem_cons, not_or] at hname
    rw [hrest.find?_eq name hname.2]
    exact h.find?_eq name (by simpa using hname.1)
  beside := by
    refine List.forall_mem_cons.mpr ⟨?_, hrest.beside⟩
    apply hrest.keeps _ _ (List.nodup_cons.mp hseparate.anchors).1
    exact h.beside pair List.mem_cons_self
  keeps name anchor hanchor hinfix := by
    rw [List.map_cons, List.mem_cons, not_or] at hanchor
    apply hrest.keeps _ _ hanchor.2
    apply h.keeps _ _ _ hinfix
    simpa using hanchor.1

theorem insert_of_not_mem (htop : '/' ∉ anchor.toList) (hanchor : anchor ∉ g.tokenNames) :
    g.insert .before anchor [token] = .error (.anchorNotFound g.name anchor) := by
  apply insert_of_tokenAt?_eq_none
  rw [tokenAt?_of_not_mem g htop]
  exact find?_eq_none_iff.mpr hanchor

/-- The places around the first token of a name. -/
theorem exists_insert_before (token : Token) (htop : '/' ∉ anchor.toList)
    (hanchor : anchor ∈ g.tokenNames) :
    ∃ before found after, g.tokens = before ++ found :: after ∧ found.name = anchor ∧
      g.insert .before anchor [token] =
        if token.name ∈ g.tokenNames then .error (.duplicateToken g.name token.name)
        else .ok { g with tokens := before ++ token :: found :: after } := by
  obtain ⟨found, hfound⟩ : ∃ found, g.find? anchor = some found := by
    rw [← Option.ne_none_iff_exists']
    exact fun hnone => find?_eq_none_iff.mp hnone hanchor
  obtain ⟨hname, before, after, htokens, -, hposition⟩ := exists_of_find?_eq_some hfound
  obtain ⟨owner, index, howner, -, hindex, hinsert⟩ :=
    exists_insert_eq ((tokenAt?_of_not_mem g htop).trans hfound)
  rw [Path.owners_of_not_mem htop] at howner
  cases howner
  rw [Path.last_of_not_mem htop] at hindex
  obtain rfl := Option.some.inj (hindex.symm.trans hposition)
  refine ⟨before, found, after, htokens, hname, ?_⟩
  rw [hinsert, splice_beside htokens, firstTaken?, firstTaken?]
  by_cases htaken : token.name ∈ g.tokenNames
  · simp [htaken, Except.map]
  · simp only [List.contains_iff_mem, htaken, if_false, Except.map, Side.beside]
    simp

theorem exists_receives (htop : '/' ∉ anchor.toList) (hanchor : anchor ∈ g.tokenNames)
    (hnew : token.name ∉ g.tokenNames) :
    ∃ other, g.insert .before anchor [token] = .ok other ∧
      g.Receives other [(token.name, anchor)] := by
  obtain ⟨before, found, after, htokens, hname, hinsert⟩ := exists_insert_before token htop hanchor
  rw [if_neg hnew] at hinsert
  have hnames : g.tokenNames = before.map (·.name) ++ anchor :: after.map (·.name) := by
    rw [tokenNames, htokens, List.map_append, List.map_cons, hname]
  have hothers : ({ g with tokens := before ++ token :: found :: after } : Grammar).tokenNames =
      before.map (·.name) ++ token.name :: anchor :: after.map (·.name) := by
    rw [tokenNames, List.map_append, List.map_cons, List.map_cons, hname]
  refine ⟨_, hinsert, rfl, rfl, ?_, ?_, ?_, ?_, ?_⟩
  · rw [hnames, hothers]
    exact List.Sublist.append_left (List.sublist_cons_self _ _) _
  · intro name
    rw [hnames, hothers]
    simp [or_left_comm, or_comm]
  · intro name hne
    have hne : token.name ≠ name := by simpa [eq_comm] using hne
    rw [find?, find?, htokens, List.find?_append, List.find?_append,
      List.find?_cons_of_neg (by simpa using hne)]
  · rw [hothers, List.forall_mem_singleton]
    exact ⟨before.map (·.name), after.map (·.name), by simp⟩
  · intro name other hother hinfix
    rw [hnames] at hinfix
    rw [hothers]
    apply infix_insert _ hinfix
    simpa using hother

theorem insertAll_singleton (g : Grammar) (token : Token) (anchor : String) :
    g.insertAll [(token, anchor)] = g.insert .before anchor [token] := by
  rw [insertAll]
  cases g.insert .before anchor [token] <;> rfl

theorem Receives.firstBroken?_eq {insertions : List (Token × String)}
    (h : g.Receives middle [(token.name, anchor)])
    (hseparate : Separate (Token.withAnchors ((token, anchor) :: insertions))) :
    Demand.firstBroken? middle (Demand.ofPairs (Token.withAnchors insertions)) =
      Demand.firstBroken? g (Demand.ofPairs (Token.withAnchors insertions)) := by
  apply Demand.firstBroken?_congr
  intro demand hdemand
  apply Demand.holds_congr
  -- The other tokens and their anchors have other names than the one inserted first.
  have hne : demand.name ≠ token.name := by
    rintro heq
    obtain ⟨pair, hpair, rfl | rfl⟩ := Demand.mem_ofPairs_iff.mp hdemand
    · apply hseparate.apart pair.2 (List.mem_cons_of_mem _ (List.mem_map_of_mem hpair))
      rw [show pair.2 = token.name from heq]
      exact List.mem_cons_self
    · apply (List.nodup_cons.mp hseparate.names).1
      show token.name ∈ _
      rw [← show pair.1 = token.name from heq]
      exact List.mem_map_of_mem hpair
  rw [h.mem_iff]
  simp [hne]

/-- The first demand that is not met is the failure of an insertion of several tokens. -/
theorem insertAll_spec {insertions : List (Token × String)}
    (hseparate : Separate (Token.withAnchors insertions)) :
    match Demand.firstBroken? g (Demand.ofPairs (Token.withAnchors insertions)) with
    | some demand => g.insertAll insertions = .error (demand.error g.name)
    | none => ∃ other, g.insertAll insertions = .ok other ∧
        g.Receives other (Token.withAnchors insertions) := by
  induction insertions generalizing g with
  | nil => exact ⟨g, rfl, .refl g⟩
  | cons insertion rest ih =>
      obtain ⟨token, anchor⟩ := insertion
      have htop : '/' ∉ anchor.toList := hseparate.top anchor List.mem_cons_self
      have hdemands : Demand.ofPairs (Token.withAnchors ((token, anchor) :: rest)) =
          .has anchor :: .lacks token.name :: Demand.ofPairs (Token.withAnchors rest) := rfl
      rw [hdemands, Demand.firstBroken?_cons, Demand.firstBroken?_cons, insertAll]
      by_cases hanchor : anchor ∈ g.tokenNames
      case neg =>
        rw [if_neg (show ¬ (Demand.has anchor).Holds g from hanchor),
          insert_of_not_mem htop hanchor]
        rfl
      case pos =>
        rw [if_pos (show (Demand.has anchor).Holds g from hanchor)]
        by_cases htaken : token.name ∈ g.tokenNames
        case pos =>
          obtain ⟨_, _, _, -, -, hinsert⟩ := exists_insert_before token htop hanchor
          rw [if_neg (show ¬ (Demand.lacks token.name).Holds g from fun h => h htaken), hinsert,
            if_pos htaken]
          rfl
        case neg =>
          obtain ⟨middle, hinsert, hreceives⟩ := exists_receives htop hanchor htaken
          have hrest := ih (g := middle) hseparate.tail
          rw [if_pos (show (Demand.lacks token.name).Holds g from htaken), hinsert,
            ← hreceives.firstBroken?_eq hseparate, ← hreceives.name_eq]
          cases hbroken : Demand.firstBroken? middle (Demand.ofPairs (Token.withAnchors rest)) with
          | some demand =>
              rw [hbroken] at hrest
              exact hrest
          | none =>
              rw [hbroken] at hrest
              obtain ⟨other, hothers, hreceives'⟩ := hrest
              exact ⟨other, hothers, hreceives.cons hreceives' hseparate⟩

end Grammar

end Highlight
