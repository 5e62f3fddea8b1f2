import Highlight.Languages.Bundle
import Highlight.Proofs.Registry.Loading

/-!
The languages that come with the library read from the registry only, and only from the common base
of three of them.
-/

namespace Highlight.Languages

variable {P : String → Prop}

theorem CssExtras.reads (sheet : Grammar) : (CssExtras.addTo sheet).Reads P :=
  (Build.reads_ofExcept _).bind fun _ => (Build.reads_replacePatterns _ _ _).bind fun _ =>
    (Build.reads_ofExcept _).bind fun _ => Build.reads_insert _ _ _ _

theorem reads_css : css.Reads P :=
  (Build.reads_ofExcept _).bind CssExtras.reads

theorem Dart.reads (h : P "clike") : Dart.grammar.Reads P :=
  (Build.reads_ofExcept _).bind fun _ => (Build.reads_extend h _ _).bind fun _ =>
    (Build.reads_ofExcept _).bind fun _ => Build.reads_insert _ _ _ _

theorem Go.reads (h : P "clike") : Go.grammar.Reads P :=
  (Build.reads_ofExcept _).bind fun _ => (Build.reads_extendFiltered h _ _ _).bind fun _ =>
    (Build.reads_ofExcept _).bind fun _ => Build.reads_insert _ _ _ _

theorem Java.reads (h : P "clike") : Java.grammar.Reads P :=
  (Build.reads_ofExcept _).bind fun _ => (Build.reads_extend h _ _).bind fun _ =>
    (Build.reads_ofExcept _).bind fun _ => (Build.reads_insert _ _ _ _).bind fun _ =>
      (Build.reads_ofExcept _).bind fun _ => (Build.reads_ofExcept _).bind fun _ =>
        Build.reads_insert _ _ _ _

theorem reads_of_build? {name : String} {build : Build Grammar} (h : build? name = some build)
    (hbase : name ≠ "clike" → P "clike") : build.Reads P := by
  unfold build? at h
  split at h
  · exact Option.some.inj h ▸ Build.reads_ofExcept _
  · exact Option.some.inj h ▸ Build.reads_ofExcept _
  · exact Option.some.inj h ▸ reads_css
  · exact Option.some.inj h ▸ Dart.reads (hbase (by decide))
  · exact Option.some.inj h ▸ Go.reads (hbase (by decide))
  · exact Option.some.inj h ▸ Java.reads (hbase (by decide))
  · exact Option.some.inj h ▸ Build.reads_ofExcept _
  · cases h

theorem reads_locator {name : String} (hbase : name ≠ "clike" → P "clike") :
    (locator.grammar name).Reads P := by
  simp only [locator]
  split
  next build hbuild =>
    exact Session.Reads.andThen (reads_of_build? hbuild hbase).run fun _ => trivial
  next => trivial

/-- The common base comes first, all others may be built on it. -/
def rank (name : String) : Nat :=
  if name = "clike" then 0 else 1

theorem canonical_eq (name : String) :
    registry.canonical name = if name = "jsonp" then "json" else name := by
  have hsynonym : registry.canonical name =
      (if name = "jsonp" then some "json" else none).getD name := rfl
  rw [hsynonym]
  split
  next => rfl
  next => rfl

theorem layered_registry : registry.Layered rank := by
  refine ⟨?_, ?_⟩
  · intro name
    rw [canonical_eq, canonical_eq]
    split
    next => decide
    next => rfl
  · rintro _ ⟨⟩ name -
    refine reads_locator fun hname => ?_
    have hbase : rank (registry.canonical "clike") = 0 := by decide
    rw [hbase, rank, if_neg hname]
    exact Nat.one_pos

theorem inDepth (name : String) : registry.InDepth rank name := by
  rintro _ ⟨⟩
  unfold rank
  split
  · decide
  · decide

end Highlight.Languages
