import Highlight.Languages.Dart
import Highlight.Languages.Go
import Highlight.Languages.Java
import Highlight.Proofs.Compose.Demands
import Highlight.Proofs.Compose.Derivation
import Highlight.Proofs.Compose.Drafts
import Highlight.Proofs.Registry.Computing

/-!
The languages that are built on the common base, over any grammar that takes its place. Each puts
tokens of its own before others of the base, and fails with the first token that is missing for that
or in the way. Otherwise it is the base with these tokens, and with those that it overrides
(`Dialect.exists_settles`).
-/

namespace Highlight

namespace Languages

/-- A language that is built on the common base. -/
structure Dialect where
  name : String
  build : Build Grammar
  /-- Tokens of the base that are left out. -/
  dropped : List String
  /-- Tokens that take the place of those of the base, or come behind them. -/
  overriding : List String
  /-- Tokens that are inserted, each with the one that it comes right before. -/
  inserted : List (String × String)
  /-- What is demanded of the base, in the order in which it is found out. -/
  demands : List Demand

def go : Dialect where
  name := "go"
  build := Go.grammar
  dropped := ["class-name"]
  overriding := ["keyword", "boolean", "operator", "number", "string"]
  inserted := [("builtin", "boolean")]
  demands := [.lacks "builtin"]

def java : Dialect where
  name := "java"
  build := Java.grammar
  dropped := []
  overriding := ["keyword", "number", "operator"]
  inserted := [("annotation", "function"), ("generics", "class-name")]
  demands := [.has "function", .lacks "annotation", .has "class-name", .lacks "generics"]

def dart : Dialect where
  name := "dart"
  build := Dart.grammar
  dropped := []
  overriding := ["string", "keyword", "operator"]
  inserted := [("metadata", "function")]
  demands := [.has "function", .lacks "metadata"]

def dialects : List Dialect :=
  [go, java, dart]

namespace Dialect

variable {d : Dialect} {base g : Grammar} {tokens : List Token}

def sieve (d : Dialect) : Sieve Unit :=
  .ofPred fun token => !d.dropped.contains token.name

/-- A grammar is that of the language, over a base. -/
structure Extends (d : Dialect) (base g : Grammar) : Prop where
  name_eq : g.name = d.name
  parent_eq : g.parent = some base.name
  /-- The tokens of the base come in the order that they had. -/
  order : (base.tokenNames.filter fun name => !d.dropped.contains name).Sublist g.tokenNames
  own : ∀ name, name ∉ d.dropped → name ∉ d.overriding → name ∉ d.inserted.map (·.1) →
    g.find? name = base.find? name
  gone : ∀ name ∈ d.dropped, name ∉ g.tokenNames
  beside : ∀ pair ∈ d.inserted, [pair.1, pair.2] <:+: g.tokenNames

/-- What a language is made of: tokens that the base is extended with, and tokens that are then
inserted. -/
structure Parts (d : Dialect) (tokens : List Token) (insertions : List (Token × String))
    (finish : Grammar → Build Grammar) : Prop where
  build_eq : d.build = (Build.extendFiltered "clike" d.name d.sieve tokens >>= finish)
  computes : ∀ load r g, (finish g).Computes load r (g.insertAll insertions) r.store
  overriding_eq : tokens.map (·.name) = d.overriding
  inserted_eq : Token.withAnchors insertions = d.inserted

/-- The names in a language do not get in each other's way. -/
structure Proper (d : Dialect) : Prop where
  separate : Separate d.inserted
  dropped : ∀ name ∈ d.dropped, name ∉ d.overriding ∧ name ∉ d.inserted.map (·.1)
  inserted : ∀ name ∈ d.inserted.map (·.1), name ∉ d.overriding
  anchors : ∀ name ∈ d.inserted.map (·.2), name ∉ d.dropped
  demands_eq : d.demands = (Demand.ofPairs d.inserted).filter fun demand =>
    !d.overriding.contains demand.name

theorem proper_of_mem (h : d ∈ dialects) : d.Proper := by
  simp only [dialects, List.mem_cons, List.not_mem_nil, or_false] at h
  rcases h with rfl | rfl | rfl
  · exact ⟨⟨by decide, by decide, by decide, by decide⟩, by decide, by decide, by decide, by decide⟩
  · exact ⟨⟨by decide, by decide, by decide, by decide⟩, by decide, by decide, by decide, by decide⟩
  · exact ⟨⟨by decide, by decide, by decide, by decide⟩, by decide, by decide, by decide, by decide⟩

section Tokens

theorem exists_compileAll_go :
    ∃ tokens, Token.compileAll Go.tokens = .ok tokens ∧ tokens.map (·.name) = go.overriding := by
  apply Token.exists_compileAll
  simp only [Go.tokens, List.forall_mem_cons, Draft.plain, Draft.ignoreCase]
  exact ⟨.single ⟨_, append_eq_ofList (append_eq_ofList rfl rfl) rfl, by decide +kernel⟩,
    .single ⟨_, rfl, by decide +kernel⟩,
    .single ⟨_, append_eq_ofList rfl rfl, by decide +kernel⟩,
    .single ⟨_, rfl, by decide +kernel⟩, .single ⟨_, rfl, by decide +kernel⟩, by simp⟩

theorem exists_compileAll_builtins :
    ∃ token, Token.compileAll Go.builtins = .ok [token] ∧ token.name = "builtin" :=
  Token.exists_compileAll_singleton (.single
    ⟨_, append_eq_ofList (append_eq_ofList rfl rfl) rfl, by decide +kernel⟩)

theorem makeToken_keyword : Draft.MakeToken Java.keyword.2 :=
  .single ⟨_, append_eq_ofList (append_eq_ofList (append_eq_ofList (append_eq_ofList rfl rfl) rfl)
    rfl) rfl, by decide +kernel⟩

theorem exists_compileAll_java :
    ∃ tokens, Token.compileAll Java.tokens = .ok tokens ∧
      tokens.map (·.name) = java.overriding := by
  apply Token.exists_compileAll
  simp only [Java.tokens, List.forall_mem_cons, Draft.ignoreCase]
  exact ⟨makeToken_keyword, .single ⟨_, append_eq_ofList rfl rfl, by decide +kernel⟩,
    .single ⟨_, append_eq_ofList rfl rfl, by decide +kernel⟩, by simp⟩

theorem exists_compileAll_annotations :
    ∃ token, Token.compileAll Java.annotations = .ok [token] ∧ token.name = "annotation" :=
  Token.exists_compileAll_singleton (.single ⟨_, rfl, by decide +kernel⟩)

theorem exists_genericsInside : ∃ inside, Java.genericsInside = .ok inside := by
  have hmake : ∀ entry ∈ [Java.keyword, ("punctuation", [Draft.plain "[<>(),.:]"])],
      Draft.MakeToken entry.2 :=
    List.forall_mem_cons.mpr ⟨makeToken_keyword,
      List.forall_mem_singleton.mpr (.single ⟨_, rfl, by decide +kernel⟩)⟩
  obtain ⟨tokens, htokens, hnames⟩ := Token.exists_compileAll hmake
  refine ⟨⟨"inside", tokens, none⟩, ?_⟩
  rw [Java.genericsInside, Grammar.compile, htokens]
  apply Grammar.build_eq_ok_iff.mpr
  rw [hnames]
  exact ⟨by decide, rfl⟩

theorem exists_compileAll_generics (inside : Grammar) :
    ∃ token, Token.compileAll (Java.generics inside) = .ok [token] ∧ token.name = "generics" := by
  have haccepts : Pattern.accepts { ignoreCase := true } false
      "<\\s*\\w+(?:\\.\\w+)?(?:\\s*,\\s*\\w+(?:\\.\\w+)?)*>".toList = true := by
    decide +kernel
  exact Token.exists_compileAll_singleton
    (.single ⟨_, String.ofList_toList.symm, haccepts⟩)

theorem exists_compileAll_dart :
    ∃ tokens, Token.compileAll Dart.tokens = .ok tokens ∧
      tokens.map (·.name) = dart.overriding := by
  apply Token.exists_compileAll
  simp only [Dart.tokens, List.forall_mem_cons, Draft.plain]
  exact ⟨.cons ⟨_, rfl, by decide +kernel⟩ (.single ⟨_, rfl, by decide +kernel⟩),
    .cons ⟨_, rfl, by decide +kernel⟩
      (.single ⟨_, append_eq_ofList (append_eq_ofList (append_eq_ofList rfl rfl) rfl) rfl,
        by decide +kernel⟩),
    .single ⟨_, rfl, by decide +kernel⟩, by simp⟩

theorem exists_compileAll_metadata :
    ∃ token, Token.compileAll Dart.metadata = .ok [token] ∧ token.name = "metadata" :=
  Token.exists_compileAll_singleton (.single ⟨_, rfl, by decide +kernel⟩)

end Tokens

/-- The insertion of a single token finishes a language. -/
theorem computes_insert (token : Token) (anchor : String) (load : Load) (r : Registry)
    (g : Grammar) : (Build.insert g .before anchor [token]).Computes load r
      (g.insertAll [(token, anchor)]) r.store := by
  rw [Grammar.insertAll_singleton]
  exact Build.computes_insert g .before anchor [token]

theorem exists_parts_go : ∃ tokens insertions finish, go.Parts tokens insertions finish := by
  obtain ⟨tokens, htokens, hnames⟩ := exists_compileAll_go
  obtain ⟨builtin, hbuiltin, hname⟩ := exists_compileAll_builtins
  refine ⟨tokens, [(builtin, "boolean")], fun g => Build.insert g .before "boolean" [builtin],
    ?_, computes_insert builtin "boolean", hnames, ?_⟩
  · have hsieve : (fun token : Token => !go.dropped.contains token.name) =
        fun token => token.name != "class-name" := by
      funext token
      rw [Bool.eq_iff_iff]
      simp [go]
    show Go.grammar = _
    rw [sieve, hsieve]
    simp only [Go.grammar, htokens, hbuiltin, Build.ofExcept_ok_bind]
    rfl
  · exact congrArg (fun name => [(name, "boolean")]) hname

theorem exists_parts_java : ∃ tokens insertions finish, java.Parts tokens insertions finish := by
  obtain ⟨tokens, htokens, hnames⟩ := exists_compileAll_java
  obtain ⟨marker, hmarker, hmarkerName⟩ := exists_compileAll_annotations
  obtain ⟨inside, hinside⟩ := exists_genericsInside
  obtain ⟨generics, hgenerics, hgenericsName⟩ := exists_compileAll_generics inside
  refine ⟨tokens, [(marker, "function"), (generics, "class-name")],
    fun g => Build.insert g .before "function" [marker] >>= fun g =>
      Build.insert g .before "class-name" [generics], ?_, ?_, hnames, ?_⟩
  · show Java.grammar = _
    simp only [Java.grammar, htokens, hmarker, hinside, hgenerics, Build.ofExcept_ok_bind]
    rfl
  · intro load r g
    exact (Build.computes_insert g .before "function" [marker]).bind fun g r' hstore =>
      hstore ▸ computes_insert generics "class-name" load r' g
  · show [(marker.name, "function"), (generics.name, "class-name")] = _
    rw [hmarkerName, hgenericsName]
    rfl

theorem exists_parts_dart : ∃ tokens insertions finish, dart.Parts tokens insertions finish := by
  obtain ⟨tokens, htokens, hnames⟩ := exists_compileAll_dart
  obtain ⟨metadata, hmetadata, hname⟩ := exists_compileAll_metadata
  refine ⟨tokens, [(metadata, "function")], fun g => Build.insert g .before "function" [metadata],
    ?_, computes_insert metadata "function", hnames, ?_⟩
  · show Dart.grammar = _
    simp only [Dart.grammar, htokens, hmetadata, Build.ofExcept_ok_bind]
    rfl
  · exact congrArg (fun name => [(name, "function")]) hname

theorem exists_parts (h : d ∈ dialects) : ∃ tokens insertions finish,
    d.Parts tokens insertions finish := by
  simp only [dialects, List.mem_cons, List.not_mem_nil, or_false] at h
  rcases h with rfl | rfl | rfl
  · exact exists_parts_go
  · exact exists_parts_java
  · exact exists_parts_dart

/-- A grammar is a base with the overriding tokens of a language, and without what it leaves out. -/
structure Adapts (d : Dialect) (base g : Grammar) : Prop where
  name_eq : g.name = d.name
  parent_eq : g.parent = some base.name
  order : (base.tokenNames.filter fun name => !d.dropped.contains name).Sublist g.tokenNames
  mem_iff : ∀ name, name ∈ g.tokenNames ↔
    (name ∈ base.tokenNames ∧ name ∉ d.dropped) ∨ name ∈ d.overriding
  find?_eq : ∀ name, name ∉ d.dropped → name ∉ d.overriding → g.find? name = base.find? name

theorem adapts_derive (base : Grammar) (h : tokens.map (·.name) = d.overriding) :
    d.Adapts base (base.derive d.name d.sieve tokens).grammar := by
  have hkept : d.sieve.chosen base.tokens =
      base.tokens.filter fun token => !d.dropped.contains token.name :=
    Sieve.chosen_ofPred _ _
  have hkeptNames : (d.sieve.chosen base.tokens).map (·.name) =
      base.tokenNames.filter fun name => !d.dropped.contains name := by
    rw [hkept, Grammar.tokenNames, List.filter_map]
    rfl
  have hcomprises := Derivation.comprises_derive base d.name d.sieve tokens
  have hnames := hcomprises.names
  rw [hkeptNames] at hnames
  refine ⟨hcomprises.name, hcomprises.parent, ?_, ?_, ?_⟩
  · rw [hnames]
    exact List.sublist_append_left _ _
  · intro name
    rw [hnames, List.mem_append, Token.mem_newNames, h, List.mem_filter]
    by_cases hmem : name ∈ d.overriding
    · simp only [hmem, true_and, or_true, iff_true]
      exact Classical.em _
    · simp [hmem]
  · intro name hdropped hoverriding
    rw [← h] at hoverriding
    rw [hcomprises.found, Token.lastNamed?_eq_none hoverriding, Option.none_or, hkept,
      List.find?_filter, Grammar.find?]
    apply List.find?_congr
    intro token _
    by_cases hname : token.name = name
    · simp [hname, hdropped]
    · simp [hname]

namespace Adapts

variable {middle : Grammar}

/-- It is found out of the base already which demand is not met. -/
theorem firstBroken?_eq (h : d.Adapts base middle) (hproper : d.Proper) :
    Demand.firstBroken? middle (Demand.ofPairs d.inserted) =
      Demand.firstBroken? base d.demands := by
  rw [hproper.demands_eq, Demand.firstBroken?, Demand.firstBroken?, List.find?_filter]
  apply List.find?_congr
  intro demand hdemand
  obtain ⟨pair, hpair, hmem⟩ := Demand.mem_ofPairs_iff.mp hdemand
  have hname : pair.1 ∈ d.inserted.map (·.1) := List.mem_map_of_mem hpair
  have hanchor : pair.2 ∈ d.inserted.map (·.2) := List.mem_map_of_mem hpair
  have hdropped : demand.name ∉ d.dropped := by
    rcases hmem with rfl | rfl
    · exact hproper.anchors _ hanchor
    · exact fun hdropped => (hproper.dropped _ hdropped).2 hname
  by_cases hoverriding : demand.name ∈ d.overriding
  · -- What the language has itself can only be an anchor.
    have hholds : demand.Holds middle := by
      rcases hmem with rfl | rfl
      · exact (h.mem_iff _).mpr (.inr hoverriding)
      · exact absurd hoverriding (hproper.inserted _ hname)
    simp [hholds, hoverriding]
  · have hholds : demand.Holds middle ↔ demand.Holds base := by
      apply Demand.holds_congr
      simp [h.mem_iff, hdropped, hoverriding]
    simp [hholds, hoverriding]

theorem extends_of_receives (h : d.Adapts base middle) (hreceives : middle.Receives g d.inserted)
    (hproper : d.Proper) : d.Extends base g where
  name_eq := hreceives.name_eq.trans h.name_eq
  parent_eq := hreceives.parent_eq.trans h.parent_eq
  order := h.order.trans hreceives.sublist
  own name hdropped hoverriding hinserted :=
    (hreceives.find?_eq name hinserted).trans (h.find?_eq name hdropped hoverriding)
  gone name hdropped := by
    obtain ⟨hoverriding, hinserted⟩ := hproper.dropped name hdropped
    simp [hreceives.mem_iff, h.mem_iff, hdropped, hoverriding, hinserted]
  beside := hreceives.beside

end Adapts

/-- What becomes of a language, as told from its base. -/
inductive Settles (d : Dialect) (base : Grammar) : Except GrammarError Grammar → Prop
  | fails (demand : Demand) (broken : Demand.firstBroken? base d.demands = some demand) :
      Settles d base (.error (demand.error d.name))
  | succeeds (g : Grammar) (met : Demand.firstBroken? base d.demands = none)
      (made : d.Extends base g) : Settles d base (.ok g)

/-- A language is made of its base, wherever that has come from. -/
theorem exists_settles (h : d ∈ dialects) (base : Grammar) : ∃ answer, d.Settles base answer ∧
    ∀ load r r', r.require load "clike" = some (.ok base, r') →
      d.build.Computes load r answer r'.store := by
  obtain ⟨tokens, insertions, finish, hparts⟩ := exists_parts h
  have hproper := proper_of_mem h
  have hadapts := adapts_derive base hparts.overriding_eq
  refine ⟨(base.derive d.name d.sieve tokens).grammar.insertAll insertions, ?_, ?_⟩
  · have hseparate := hproper.separate
    rw [← hparts.inserted_eq] at hseparate
    have hspec := Grammar.insertAll_spec hseparate
      (g := (base.derive d.name d.sieve tokens).grammar)
    rw [hparts.inserted_eq, hadapts.firstBroken?_eq hproper, hadapts.name_eq] at hspec
    cases hbroken : Demand.firstBroken? base d.demands with
    | some demand =>
        rw [hbroken] at hspec
        exact hspec ▸ .fails demand hbroken
    | none =>
        rw [hbroken] at hspec
        obtain ⟨g, hg, hreceives⟩ := hspec
        exact hg ▸ .succeeds g hbroken (hadapts.extends_of_receives hreceives hproper)
  · intro load r r' hrequire
    rw [hparts.build_eq]
    exact (Build.computes_extendFiltered hrequire).bind fun g r' hstore =>
      hstore ▸ hparts.computes load r' g

end Dialect

end Languages

end Highlight
