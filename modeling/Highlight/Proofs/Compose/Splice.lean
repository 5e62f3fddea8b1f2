import Highlight.Proofs.Compose.Lookup

/-!
Where inserted tokens go. They come to stand right beside the anchor if their names are new
(`Grammar.splice_beside`). An anchor without a slash is a token of the grammar itself
(`Grammar.splits_of_insert`).
-/

namespace Highlight

/-- Tokens together with the one that they are put beside. -/
def Side.beside (side : Side) (token : Token) (tokens : List Token) : List Token :=
  match side with
  | .before => tokens ++ [token]
  | .after => token :: tokens

namespace Grammar

theorem exists_of_find?_eq_some {g : Grammar} {name : String} {token : Token}
    (h : g.find? name = some token) :
    token.name = name ∧ ∃ before after, g.tokens = before ++ token :: after ∧
      (∀ t ∈ before, t.name ≠ name) ∧ g.position? name = some before.length := by
  obtain ⟨hbeq, before, after, htokens, hbefore⟩ := List.find?_eq_some_iff_append.mp h
  have hname : token.name = name := beq_iff_eq.mp hbeq
  have hnone : before.findIdx? (·.name == name) = none := by simpa using hbefore
  refine ⟨hname, before, after, htokens, by simpa using hbefore, ?_⟩
  simp [position?, htokens, List.findIdx?_append, hnone, List.findIdx?_cons, hname]

/-- Splicing at the place of a token. Nothing is done unless all names are new. -/
theorem splice_beside {g : Grammar} {before after : List Token} {token : Token}
    (h : g.tokens = before ++ token :: after) (side : Side) (tokens : List Token) :
    g.splice (side.shift before.length) tokens =
      match firstTaken? g.tokenNames tokens with
      | some taken => .error (.duplicateToken g.name taken.name)
      | none => .ok { g with tokens := before ++ side.beside token tokens ++ after } := by
  have htokens : g.tokens.take (side.shift before.length) ++ tokens ++
      g.tokens.drop (side.shift before.length) = before ++ side.beside token tokens ++ after := by
    cases side with
    | before => simp [h, Side.shift, Side.beside]
    | after =>
        simp [h, Side.shift, Side.beside, List.take_append, List.drop_append,
          List.take_of_length_le (Nat.le_succ _), List.drop_of_length_le (Nat.le_succ _)]
  cases htaken : firstTaken? g.tokenNames tokens with
  | none => simp only [splice, htaken, htokens]
  | some taken => simp only [splice, htaken]

/-- Tokens that are put beside the first one of a name, which they do not share. -/
structure Splits (g other : Grammar) (side : Side) (anchor : String) (tokens : List Token)
    (before : List Token) (token : Token) (after : List Token) : Prop where
  tokens_eq : g.tokens = before ++ token :: after
  name_eq : token.name = anchor
  first : ∀ t ∈ before, t.name ≠ anchor
  fresh : ∀ t ∈ tokens, t.name ∉ g.tokenNames
  spliced : other.tokens = match side with
    | .before => before ++ tokens ++ token :: after
    | .after => before ++ token :: tokens ++ after

namespace Splits

variable {g other : Grammar} {side : Side} {anchor : String} {tokens before after : List Token}
  {token : Token}

theorem anchor_mem (h : g.Splits other side anchor tokens before token after) :
    anchor ∈ g.tokenNames := by
  rw [tokenNames, h.tokens_eq, ← h.name_eq]
  simp

theorem find?_eq (h : g.Splits other side anchor tokens before token after) :
    g.find? anchor = some token := by
  rw [find?, h.tokens_eq, List.find?_append]
  have hnone : before.find? (·.name == anchor) = none := by simpa using h.first
  simp [hnone, h.name_eq]

end Splits

theorem splits_of_insert {g other : Grammar} {side : Side} {anchor : String} {tokens : List Token}
    (htop : '/' ∉ anchor.toList) (h : g.insert side anchor tokens = .ok other) :
    ∃ before token after, g.Splits other side anchor tokens before token after := by
  obtain ⟨owner, index, spliced, howner, hindex, hsplice, rfl⟩ := exists_of_insert_eq_ok h
  rw [Path.owners_of_not_mem htop] at howner
  cases howner
  rw [Path.last_of_not_mem htop] at hindex
  cases hfind : g.find? anchor with
  | none =>
      rw [← position?_eq_none_iff] at hfind
      simp [hfind] at hindex
  | some token =>
      obtain ⟨hname, before, after, htokens, hfirst, hposition⟩ := exists_of_find?_eq_some hfind
      obtain rfl := Option.some.inj (hindex.symm.trans hposition)
      rw [splice_beside htokens] at hsplice
      split at hsplice
      next => cases hsplice
      next hnone =>
        cases hsplice
        refine ⟨before, token, after, htokens, hname, hfirst,
          (distinct_of_firstTaken?_eq_none hnone).2, ?_⟩
        cases side <;> simp [Side.beside]

end Grammar

end Highlight
