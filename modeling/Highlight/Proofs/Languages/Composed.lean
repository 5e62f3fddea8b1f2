import Highlight.Languages.Bundle
import Highlight.Proofs.Registry.Composing

/-!
The languages that come with the library make their grammars by composing.
-/

namespace Highlight.Languages

theorem Brainfuck.composed : Yields Grammar.Composed Brainfuck.grammar := by
  have hinsides : Draft.insides (Brainfuck.tokens.flatMap (·.2)) = [] := rfl
  exact Grammar.yields_compile (by simp [hinsides])

theorem Json.composed : Yields Grammar.Composed Json.grammar := by
  have hinsides : Draft.insides (Json.tokens.flatMap (·.2)) = [] := rfl
  exact Grammar.yields_compile (by simp [hinsides])

theorem CLike.composed : Yields Grammar.Composed CLike.grammar := by
  have hinside : Yields Grammar.Composed CLike.classNameInside :=
    Grammar.yields_compile (by rintro g ⟨⟩)
  refine hinside.bind fun inside hinside => ?_
  have hinsides : Draft.insides ((CLike.tokens inside).flatMap (·.2)) = [inside] := rfl
  exact Grammar.yields_compile (by simpa [hinsides] using hinside)

/-- The tokens that css adds to its at-rule are its own. -/
theorem Css.composed : Yields Grammar.Composed Css.grammar := by
  have hinside : Yields Grammar.Composed Css.atRuleInside :=
    Grammar.yields_compile (by rintro g ⟨⟩)
  refine hinside.bind fun inside hinside => ?_
  have hinsides : Draft.insides ((Css.tokens inside).flatMap (·.2)) = [inside] := rfl
  have hsheet : Yields Grammar.Composed (Grammar.compile "css" (Css.tokens inside)) :=
    Grammar.yields_compile (by simpa [hinsides] using hinside)
  refine hsheet.bind fun sheet hsheet => ?_
  split
  next => exact .error _
  next focus hfocus =>
    intro g hg
    obtain ⟨inner, hpush, heq⟩ := exists_of_bind_eq_ok hg
    cases heq
    refine .pushInside hsheet hfocus ?_ hpush
    intro token hmem
    exact .ofGrammar hsheet (List.mem_filter.mp hmem).1

/-- The pattern that css gives its selectors is made anew, with a grammar inside. -/
theorem CssExtras.composed {sheet : Grammar} (h : sheet.Composed) :
    (CssExtras.addTo sheet).Composes Grammar.Composed := by
  have hinside : Yields Grammar.Composed CssExtras.selectorInside :=
    Grammar.yields_compile (by rintro g ⟨⟩)
  have hselector : Yields Pattern.Composed CssExtras.selector := by
    refine hinside.bind fun inside hinside p hbuild => .build ?_ hbuild
    rintro g ⟨⟩
    exact hinside
  have hinsides : Draft.insides (CssExtras.values.flatMap (·.2)) = [] := rfl
  have hvalues := Token.yields_compileAll CssExtras.values (by simp [hinsides])
  refine (Build.composes_ofExcept hselector).bind fun selector hselector => ?_
  refine (Build.composes_replacePatterns h _ (by simpa using hselector)).bind fun sheet h => ?_
  refine (Build.composes_ofExcept hvalues).bind fun values hvalues => ?_
  exact Build.composes_insert hvalues h _ _

theorem composed_css : css.Composes Grammar.Composed :=
  (Build.composes_ofExcept Css.composed).bind fun _ h => CssExtras.composed h

theorem Dart.composed : Dart.grammar.Composes Grammar.Composed := by
  have htokens := Token.yields_compileAll Dart.tokens (by rintro g ⟨⟩)
  have hmetadata := Token.yields_compileAll Dart.metadata (by rintro g ⟨⟩)
  refine (Build.composes_ofExcept htokens).bind fun tokens htokens => ?_
  refine (Build.composes_extend htokens _ _).bind fun dart hdart => ?_
  refine (Build.composes_ofExcept hmetadata).bind fun metadata hmetadata => ?_
  exact Build.composes_insert hmetadata hdart _ _

theorem Go.composed : Go.grammar.Composes Grammar.Composed := by
  have htokens := Token.yields_compileAll Go.tokens (by rintro g ⟨⟩)
  have hbuiltins := Token.yields_compileAll Go.builtins (by rintro g ⟨⟩)
  refine (Build.composes_ofExcept htokens).bind fun tokens htokens => ?_
  refine (Build.composes_extendFiltered htokens _ _ _).bind fun go hgo => ?_
  refine (Build.composes_ofExcept hbuiltins).bind fun builtins hbuiltins => ?_
  exact Build.composes_insert hbuiltins hgo _ _

theorem Java.composed : Java.grammar.Composes Grammar.Composed := by
  have htokens := Token.yields_compileAll Java.tokens (by rintro g ⟨⟩)
  have hannotations := Token.yields_compileAll Java.annotations (by rintro g ⟨⟩)
  have hinside : Yields Grammar.Composed Java.genericsInside :=
    Grammar.yields_compile (by rintro g ⟨⟩)
  refine (Build.composes_ofExcept htokens).bind fun tokens htokens => ?_
  refine (Build.composes_extend htokens _ _).bind fun java hjava => ?_
  refine (Build.composes_ofExcept hannotations).bind fun annotations hannotations => ?_
  refine (Build.composes_insert hannotations hjava _ _).bind fun java hjava => ?_
  refine (Build.composes_ofExcept hinside).bind fun inside hinside => ?_
  have hinsides : Draft.insides ((Java.generics inside).flatMap (·.2)) = [inside] := rfl
  have hgenerics := Token.yields_compileAll (Java.generics inside)
    (by simpa [hinsides] using hinside)
  refine (Build.composes_ofExcept hgenerics).bind fun generics hgenerics => ?_
  exact Build.composes_insert hgenerics hjava _ _

theorem composed_of_build? {name : String} {build : Build Grammar} (h : build? name = some build) :
    build.Composes Grammar.Composed := by
  unfold build? at h
  split at h
  · exact Option.some.inj h ▸ Build.composes_ofExcept Brainfuck.composed
  · exact Option.some.inj h ▸ Build.composes_ofExcept CLike.composed
  · exact Option.some.inj h ▸ composed_css
  · exact Option.some.inj h ▸ Dart.composed
  · exact Option.some.inj h ▸ Go.composed
  · exact Option.some.inj h ▸ Java.composed
  · exact Option.some.inj h ▸ Build.composes_ofExcept Json.composed
  · cases h

theorem composed_locator : locator.Composed := by
  intro name
  simp only [locator]
  split
  next build hbuild =>
    refine Session.Composes.andThen (composed_of_build? hbuild).run ?_
    rintro result hresult _ ⟨⟩
    exact hresult
  next =>
    rintro result ⟨⟩

end Highlight.Languages
