import Highlight.Grammar.Draft
import Highlight.Proofs.Failure

/-!
Tables of regexes that can be compiled. Whether a regex can be read is settled by the characters of
its source (`Draft.Compiles`), and a table of such regexes gives tokens of the names in it
(`Token.exists_compileAll`).
-/

namespace Highlight

theorem append_eq_ofList {s t : String} {front back : List Char}
    (hs : s = String.ofList front) (ht : t = String.ofList back) :
    s ++ t = String.ofList (front ++ back) := by
  rw [hs, ht, String.ofList_append]

/-- Some characters can be read as a regex, with a group if that is to hold the context. -/
def Pattern.accepts (flags : Regex.Flags) (lookbehind : Bool) (source : List Char) : Bool :=
  (Regex.Program.read flags.modes source).toOption.any fun program =>
    !(lookbehind && program.groups == 0)

theorem Pattern.exists_build {source : List Char} {options : Options}
    (h : accepts options.flags options.lookbehind source = true) :
    ∃ p, build (String.ofList source) options = .ok p := by
  obtain ⟨program, hsome, hgroups⟩ := (Option.any_eq_true _ _).mp h
  have hread :
      Regex.Program.read options.flags.modes (String.ofList source).toList = .ok program := by
    rw [String.toList_ofList]
    exact eq_ok_of_toOption_eq_some hsome
  have hcompile : Regex.compile (String.ofList source) options.flags =
      .ok ⟨String.ofList source, options.flags, program, hread⟩ := by
    rw [Regex.compile]
    split
    next found hfound =>
      cases hread.symm.trans hfound
      rfl
    next e herror => cases hread.symm.trans herror
  rw [build, hcompile]
  have hcontext : (options.lookbehind && program.groups == 0) = false :=
    (Bool.not_eq_true' _).mp hgroups
  simp only [Regex.groupCount, hcontext]
  exact ⟨_, rfl⟩

/-- A draft whose source can be read. -/
def Draft.Compiles (draft : Draft) : Prop :=
  ∃ source, draft.source = String.ofList source ∧
    Pattern.accepts draft.options.flags draft.options.lookbehind source = true

/-- Drafts that together make a token. -/
structure Draft.MakeToken (drafts : List Draft) : Prop where
  ne_nil : drafts ≠ []
  compiles : ∀ draft ∈ drafts, draft.Compiles

theorem Draft.MakeToken.single {draft : Draft} (h : draft.Compiles) : MakeToken [draft] :=
  ⟨List.cons_ne_nil _ _, List.forall_mem_singleton.mpr h⟩

theorem Draft.MakeToken.cons {draft : Draft} {drafts : List Draft} (h : draft.Compiles)
    (hrest : MakeToken drafts) : MakeToken (draft :: drafts) :=
  ⟨List.cons_ne_nil _ _, List.forall_mem_cons.mpr ⟨h, hrest.compiles⟩⟩

theorem Draft.exists_compileAll {drafts : List Draft} (h : ∀ draft ∈ drafts, draft.Compiles) :
    ∃ patterns, compileAll drafts = .ok patterns ∧ patterns.length = drafts.length := by
  induction drafts with
  | nil => exact ⟨[], rfl, rfl⟩
  | cons draft rest ih =>
      obtain ⟨⟨source, hsource, haccepts⟩, hrest⟩ := List.forall_mem_cons.mp h
      obtain ⟨pattern, hpattern⟩ := Pattern.exists_build haccepts
      obtain ⟨patterns, hpatterns, hlength⟩ := ih hrest
      rw [← hsource] at hpattern
      refine ⟨pattern :: patterns, ?_, by simp [hlength]⟩
      rw [compileAll, compile, hpattern, hpatterns]
      rfl

theorem Token.exists_compileAll {entries : List (String × List Draft)}
    (h : ∀ entry ∈ entries, Draft.MakeToken entry.2) :
    ∃ tokens, compileAll entries = .ok tokens ∧ tokens.map (·.name) = entries.map (·.1) := by
  induction entries with
  | nil => exact ⟨[], rfl, rfl⟩
  | cons entry rest ih =>
      obtain ⟨⟨hne, hdrafts⟩, hrest⟩ := List.forall_mem_cons.mp h
      obtain ⟨patterns, hpatterns, hlength⟩ := Draft.exists_compileAll hdrafts
      obtain ⟨tokens, htokens, hnames⟩ := ih hrest
      have hsome : patterns ≠ [] := by
        rintro rfl
        exact hne (List.length_eq_zero_iff.mp hlength.symm)
      refine ⟨⟨entry.1, patterns⟩ :: tokens, ?_, by simp [hnames]⟩
      rw [compileAll, compile, hpatterns]
      show (build entry.1 patterns >>= fun token => _) = _
      rw [build, if_neg (by simpa using hsome), htokens]
      rfl

theorem Token.exists_compileAll_singleton {name : String} {drafts : List Draft}
    (h : Draft.MakeToken drafts) :
    ∃ token, compileAll [(name, drafts)] = .ok [token] ∧ token.name = name := by
  have hmake : ∀ entry ∈ [(name, drafts)], Draft.MakeToken entry.2 :=
    List.forall_mem_singleton.mpr h
  obtain ⟨tokens, hok, hnames⟩ := exists_compileAll hmake
  obtain ⟨token, rfl, hname⟩ := List.map_eq_singleton_iff.mp hnames
  exact ⟨token, hok, hname⟩

end Highlight
