import Highlight.Regex.CharClass

/-!
Characters without other cases. No other character has the case of one that the folding table
neither starts from nor leads to (`Unicode.eq_of_mem_peers`), so a class of such characters gains
nothing when other cases are added (`Regex.CharClass.contains_folded_of_caseless`).
-/

namespace Highlight

namespace Unicode

/-- Folding neither starts from a code point nor leads to it. -/
def isCaseless (code : Nat) : Bool :=
  code != 0 && foldRuns.all fun run => !run.contains code && (run.invert? code).isNone

theorem FoldRun.invert?_apply {run : FoldRun} {code : Nat} (h : run.contains code = true)
    (hpos : run.apply code ≠ 0) : run.invert? (run.apply code) = some code := by
  have hback : ((run.apply code : Int) - run.shift).toNat = code := by
    unfold apply at hpos ⊢
    omega
  simp only [invert?, hback, h, if_true]

theorem eq_of_mem_peers {code k : Nat} (hk : isCaseless k = true) (h : k ∈ peers code) :
    code = k := by
  simp only [isCaseless, Bool.and_eq_true, bne_iff_ne, List.all_eq_true, Bool.not_eq_true',
    Option.isNone_iff_eq_none] at hk
  obtain ⟨hpos, hruns⟩ := hk
  rcases List.mem_cons.mp h with hfold | hother
  · unfold fold at hfold
    split at hfold
    next run hfind =>
      -- A run that leads from `code` to its fold leads back from there.
      have hcontains : run.contains code = true := by simpa using List.find?_some hfind
      have hback := FoldRun.invert?_apply hcontains (hfold ▸ hpos)
      rw [← hfold, (hruns run (List.mem_of_find?_eq_some hfind)).2] at hback
      cases hback
    next => exact hfold.symm
  · obtain ⟨run, hrun, hinvert⟩ := List.mem_filterMap.mp hother
    simp only [FoldRun.invert?, Option.ite_none_right_eq_some, Option.some.injEq] at hinvert
    obtain ⟨hcontains, rfl⟩ := hinvert
    rw [(hruns run hrun).1] at hcontains
    cases hcontains

end Unicode

namespace Regex.CharClass

theorem contains_single (code n : Nat) : (single code).contains n = (n == code) := by
  rw [Bool.eq_iff_iff]
  simp only [single, contains, Bool.and_eq_true, decide_eq_true_eq, beq_iff_eq]
  omega

/-- The class of some code points, as a bracket expression lists them. -/
def ofCodes (codes : List Nat) : CharClass :=
  codes.foldl (fun members code => .union members (.single code)) .none

theorem contains_ofCodes (codes : List Nat) (n : Nat) :
    (ofCodes codes).contains n = codes.contains n := by
  have hfold (members : CharClass) :
      (codes.foldl (fun members code => .union members (.single code)) members).contains n =
        (members.contains n || codes.contains n) := by
    induction codes generalizing members with
    | nil => simp
    | cons code codes ih =>
        rw [List.foldl_cons, ih, List.contains_cons, contains, contains_single, Bool.or_assoc]
  rw [ofCodes, hfold, contains, Bool.false_or]

theorem contains_folded_of_caseless {members : CharClass} {n : Nat}
    (h : ∀ code, members.contains code = true → Unicode.isCaseless code = true) :
    (folded members).contains n = members.contains n := by
  rw [contains, Bool.or_eq_left_iff_imp]
  intro hpeers
  obtain ⟨code, hpeer, hcode⟩ := List.any_eq_true.mp hpeers
  rwa [Unicode.eq_of_mem_peers (h code hcode) hpeer]

theorem contains_foldIf_of_caseless {members : CharClass} {n : Nat} (fold : Bool)
    (h : ∀ code, members.contains code = true → Unicode.isCaseless code = true) :
    (foldIf fold members).contains n = members.contains n := by
  cases fold with
  | false => rfl
  | true => exact contains_folded_of_caseless h

end Regex.CharClass

end Highlight
