import Highlight.Proofs.Languages.Dialects
import Highlight.Proofs.Languages.Reading
import Highlight.Proofs.Registry.Resolution

/-!
Languages that are built on the common base, in a registry. The base is whatever a request for it
comes to there. So it settles which language can be built (`Languages.build_dialect`), and one that
cannot is not published.
-/

namespace Highlight

namespace Registry

variable {r : Registry} {name : String}

theorem require_of_published?_eq_none {load : Load} (h : r.published? name = none)
    (hlocator : r.locator.isSome = true) : r.require load name = load (r.canonical name) r := by
  rw [require, h]
  exact if_pos hlocator

end Registry

namespace Locator

variable {r other : Registry} {name : String}

theorem settle_congr (name : String) (given : Option (Except GrammarError Grammar))
    (h : r.store = other.store) :
    (settle name given r).1 = (settle name given other).1 ∧
      (settle name given r).2.store = (settle name given other).2.store := by
  rcases given with _ | e | g
  · exact ⟨rfl, h⟩
  · exact ⟨rfl, h⟩
  · simp [settle, Registry.publishLocated, Registry.emit, h]

theorem find?_settle_of_ne (given : Option (Except GrammarError Grammar)) {key : String}
    (h : key ≠ name) : (settle name given r).2.store.find? key = r.store.find? key := by
  rcases given with _ | e | g
  · rfl
  · rfl
  · simp [settle, Registry.publishLocated, Registry.emit, Store.find?, Table.find?_insertNew, h]

/-- An answer for a name under which there is nothing is passed on. -/
theorem settle_of_missing (answer : Except GrammarError Grammar) (h : r.store.find? name = none) :
    ∃ r', settle name (some answer) r = (answer, r') ∧
      r'.store.find? name = answer.toOption := by
  have hnone : r.store.grammars.find? name = none := h
  rcases answer with e | g
  · exact ⟨r, rfl, h⟩
  · have hfind : (settle name (some (.ok g)) r).2.store.find? name = some g := by
      simp [settle, Registry.publishLocated, Registry.emit, Store.find?, Table.find?_insertNew,
        hnone]
    refine ⟨(settle name (some (.ok g)) r).2, ?_, hfind⟩
    show (Except.ok (((settle name (some (.ok g)) r).2.store.find? name).getD g), _) = _
    rw [hfind]
    rfl

end Locator

namespace Languages

variable {r r' : Registry} {d : Dialect} {base : Grammar} {name : String}

theorem grammar_dialect (h : d ∈ dialects) :
    locator.grammar d.name = d.build.run.andThen fun answer => .done (some answer) := by
  have hbuild : build? d.name = some d.build := by
    simp only [dialects, List.mem_cons, List.not_mem_nil, or_false] at h
    rcases h with rfl | rfl | rfl
    · rfl
    · rfl
    · rfl
  simp only [locator, hbuild]
  rfl

/-- Where a language stands for its own base, building it comes to no end. -/
theorem load_dialect_eq_none (h : d ∈ dialects) (hpublished : r.published? "clike" = none)
    (hcanonical : r.canonical "clike" = d.name) (hlocator : r.locator.isSome = true)
    (depth : Nat) : locator.load depth d.name r = none := by
  induction depth generalizing r with
  | zero => rfl
  | succ depth ih =>
      obtain ⟨tokens, insertions, finish, hparts⟩ := Dialect.exists_parts h
      have hrequire : (r.noteAsked d.name).require (locator.load depth) "clike" = none := by
        rw [Registry.require_of_published?_eq_none (r := r.noteAsked d.name) hpublished hlocator]
        show locator.load depth (r.canonical "clike") _ = none
        rw [hcanonical]
        exact ih (r := r.noteAsked d.name) hpublished hcanonical hlocator
      rw [Locator.load, grammar_dialect h, Session.runWith_andThen, hparts.build_eq,
        Build.runWith_extendFiltered_eq_none hrequire]
      rfl

/-- Only the languages that are built on the common base ask for any other. -/
theorem reads_nothing_of_not_mem (h : name ∉ dialects.map (·.name)) :
    (locator.grammar name).Reads fun _ => False := by
  have hreads : ∀ build, build? name = some build → build.Reads fun _ => False := by
    intro build hbuild
    unfold build? at hbuild
    split at hbuild
    · exact Option.some.inj hbuild ▸ Build.reads_ofExcept _
    · exact Option.some.inj hbuild ▸ Build.reads_ofExcept _
    · exact Option.some.inj hbuild ▸ reads_css
    · exact absurd (by decide) h
    · exact absurd (by decide) h
    · exact absurd (by decide) h
    · exact Option.some.inj hbuild ▸ Build.reads_ofExcept _
    · cases hbuild
  simp only [locator]
  split
  next build hbuild => exact Session.Reads.andThen (hreads build hbuild).run fun _ => trivial
  next => trivial

theorem exists_load (h : name ∉ dialects.map (·.name)) : ∃ given, ∀ depth r, ∃ between,
    locator.load (depth + 1) name r = some (Locator.settle name given between) ∧
      between.store = r.store := by
  obtain ⟨given, hruns⟩ := (reads_nothing_of_not_mem h).exists_answer
  refine ⟨given, fun depth r => ?_⟩
  obtain ⟨between, hrun, hstore⟩ := hruns (locator.load depth) (r.noteAsked name)
  refine ⟨between, ?_, hstore⟩
  rw [Locator.load, hrun]
  rfl

/-- What a request for the base comes to is the same while a language is built on it. No such
language is published by the request. -/
theorem require_base (hlocator : r.locator = some locator)
    (hbase : r.run (.require "clike" .done) = some (.ok base, r')) (asker : String) :
    (∃ r'', (r.noteAsked asker).require (locator.load 1) "clike" = some (.ok base, r'') ∧
      r''.store = r'.store) ∧
    ∀ d ∈ dialects, r'.store.find? d.name = r.store.find? d.name := by
  have hlocated : r.locator.isSome = true := by rw [hlocator]; rfl
  have hload : r.load = locator.load 2 := by rw [Registry.load, hlocator]; rfl
  rw [Registry.run_require, hload] at hbase
  cases hpublished : r.published? "clike" with
  | some found =>
      rw [Registry.require, hpublished] at hbase
      cases hbase
      have hfound : (r.noteAsked asker).published? "clike" = some base := hpublished
      refine ⟨⟨r.noteAsked asker, ?_, rfl⟩, fun _ _ => rfl⟩
      rw [Registry.require, hfound]
  | none =>
      rw [Registry.require_of_published?_eq_none hpublished hlocated] at hbase
      by_cases hmem : r.canonical "clike" ∈ dialects.map (·.name)
      case pos =>
        obtain ⟨d, hd, hname⟩ := List.mem_map.mp hmem
        rw [← hname, load_dialect_eq_none hd hpublished hname.symm hlocated] at hbase
        cases hbase
      case neg =>
        obtain ⟨given, hruns⟩ := exists_load hmem
        obtain ⟨between, hrun, hstore⟩ := hruns 1 r
        obtain ⟨other, hother, hotherStore⟩ := hruns 0 (r.noteAsked asker)
        have hsettle := Option.some.inj (hrun.symm.trans hbase)
        obtain ⟨hanswer, hsettled⟩ := Locator.settle_congr (r.canonical "clike") given
          (hotherStore.trans hstore.symm)
        rw [hsettle] at hanswer hsettled
        refine ⟨⟨_, ?_, hsettled⟩, ?_⟩
        · rw [Registry.require_of_published?_eq_none (r := r.noteAsked asker) hpublished hlocated]
          exact hother.trans (congrArg some (Prod.ext hanswer rfl))
        · intro d hd
          have hne : d.name ≠ r.canonical "clike" := by
            rintro heq
            exact hmem (heq ▸ List.mem_map_of_mem hd)
          have hfind := Locator.find?_settle_of_ne (r := between) given hne
          rwa [hsettle, hstore] at hfind

/-- The first request for a language comes to what its build comes to. Only if that is a grammar is
it published. -/
theorem require_dialect {answer : Except GrammarError Grammar} (h : d ∈ dialects)
    (hbuild : ∀ load r r', r.require load "clike" = some (.ok base, r') →
      d.build.Computes load r answer r'.store)
    (hbase : r.run (.require "clike" .done) = some (.ok base, r'))
    (hlocator : r.locator = some locator) (hcanonical : r.canonical name = d.name)
    (hpublished : r.published? name = none) :
    ∃ after, r.run (.require name .done) = some (answer, after) ∧
      after.store.find? d.name = answer.toOption := by
  have hlocated : r.locator.isSome = true := by rw [hlocator]; rfl
  have hload : r.load = locator.load 2 := by rw [Registry.load, hlocator]; rfl
  obtain ⟨⟨middle, hrequire, hmiddle⟩, hkeeps⟩ := require_base hlocator hbase d.name
  obtain ⟨between, hrun, hstore⟩ := hbuild _ _ _ hrequire
  have hmissing : between.store.find? d.name = none := by
    rw [hstore, hmiddle, hkeeps d h, ← hcanonical]
    exact (Registry.published?_eq_none_iff.mp hpublished).2
  obtain ⟨after, hsettle, hfind⟩ := Locator.settle_of_missing answer hmissing
  refine ⟨after, ?_, hfind⟩
  rw [Registry.run_require, hload, Registry.require_of_published?_eq_none hpublished hlocated,
    hcanonical, Locator.load, grammar_dialect h, Session.runWith_andThen, hrun]
  exact congrArg some hsettle

/-- Whatever grammar takes the place of the common base, a language is built on it exactly if it
meets the demands of the language. The first that it does not meet is the failure, in the name of
the language, and nothing is published. Otherwise the language is the base with its tokens in it.
A request for the language comes to the same. -/
theorem build_dialect (hmem : d ∈ dialects)
    (hbase : r.run (.require "clike" .done) = some (.ok base, r')) :
    ∃ answer after, r.run d.build.run = some (answer, after) ∧ after.store = r'.store ∧
      ((∃ g, answer = .ok g) ↔ ∀ demand ∈ d.demands, demand.Holds base) ∧
      (∀ demand, Demand.firstBroken? base d.demands = some demand →
        answer = .error (demand.error d.name)) ∧
      (∀ g, answer = .ok g → d.Extends base g) ∧
      ∀ name, r.locator = some locator → r.canonical name = d.name → r.published? name = none →
        ∃ after, r.run (.require name .done) = some (answer, after) ∧
          after.store.find? d.name = answer.toOption := by
  obtain ⟨answer, hsettles, hbuild⟩ := Dialect.exists_settles hmem base
  have hrequire := hbase
  rw [Registry.run_require] at hrequire
  obtain ⟨after, hrun, hstore⟩ := hbuild _ _ _ hrequire
  refine ⟨answer, after, hrun, hstore, ?_, ?_, ?_, fun name => require_dialect hmem hbuild hbase⟩
  · rw [← Demand.firstBroken?_eq_none_iff]
    cases hsettles with
    | fails demand hbroken => simp [hbroken]
    | succeeds g hmet => simp [hmet]
  · intro demand hbroken
    cases hsettles with
    | fails other hother => rw [Option.some.inj (hbroken.symm.trans hother)]
    | succeeds g hmet => cases hbroken.symm.trans hmet
  · rintro g rfl
    cases hsettles with
    | succeeds g hmet hextends => exact hextends

/-- A base with annotations of its own leaves no place for those of another language. -/
theorem build_dialect_annotated : ∃ base,
    Grammar.compile "clike" [("annotation", [.plain "@\\w+"]), ("function", [.plain "\\w+\\("])] =
      .ok base ∧
    (∃ r, (registry.register base).run (.require "java" .done) =
      some (.error (.duplicateToken "java" "annotation"), r) ∧ r.store.find? "java" = none) ∧
    ∃ g r, (registry.register base).run (.require "dart" .done) = some (.ok g, r) ∧
      r.store.find? "dart" = some g ∧ ["metadata", "function"] <:+: g.tokenNames ∧
      g.find? "annotation" = base.find? "annotation" := by
  have hmake : ∀ entry ∈ [("annotation", [Draft.plain "@\\w+"]),
      ("function", [Draft.plain "\\w+\\("])], Draft.MakeToken entry.2 :=
    List.forall_mem_cons.mpr ⟨.single ⟨_, rfl, by decide +kernel⟩,
      List.forall_mem_singleton.mpr (.single ⟨_, rfl, by decide +kernel⟩)⟩
  obtain ⟨tokens, htokens, hnames⟩ := Token.exists_compileAll hmake
  have hbuild : Grammar.build "clike" tokens = .ok ⟨"clike", tokens, none⟩ := by
    apply Grammar.build_eq_ok_iff.mpr
    rw [hnames]
    exact ⟨by decide, rfl⟩
  let base : Grammar := ⟨"clike", tokens, none⟩
  have hbase : (registry.register base).run (.require "clike" .done) =
      some (.ok base, registry.register base) :=
    Registry.run_require_of_published? rfl
  have hbaseNames : base.tokenNames = ["annotation", "function"] := hnames
  refine ⟨base, ?_, ?_, ?_⟩
  · rw [Grammar.compile, htokens]
    exact hbuild
  · obtain ⟨answer, -, -, -, -, hfailure, -, hrequest⟩ :=
      build_dialect (d := java) (by simp [dialects]) hbase
    have hbroken : Demand.firstBroken? base java.demands = some (.lacks "annotation") := by
      simp [Demand.firstBroken?, Demand.Holds, java, hbaseNames]
    obtain ⟨r, hrun, hfind⟩ := hrequest "java" rfl rfl rfl
    rw [hfailure _ hbroken] at hrun hfind
    exact ⟨r, hrun, hfind⟩
  · obtain ⟨answer, -, -, -, hsucceeds, -, hextends, hrequest⟩ :=
      build_dialect (d := dart) (by simp [dialects]) hbase
    obtain ⟨g, rfl⟩ := hsucceeds.mpr (by simp [Demand.Holds, dart, hbaseNames])
    obtain ⟨r, hrun, hfind⟩ := hrequest "dart" rfl rfl rfl
    have hg := hextends g rfl
    exact ⟨g, r, hrun, hfind, hg.beside ("metadata", "function") (by decide),
      hg.own "annotation" (by decide) (by decide) (by decide)⟩

end Languages

end Highlight
