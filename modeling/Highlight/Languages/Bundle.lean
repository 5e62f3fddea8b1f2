import Highlight.Languages.Brainfuck
import Highlight.Languages.CLike
import Highlight.Languages.Css
import Highlight.Languages.CssExtras
import Highlight.Languages.Dart
import Highlight.Languages.Go
import Highlight.Languages.Java
import Highlight.Languages.Json
import Highlight.Registry.Basic

/-!
The languages that come with the library, behind one locator.
-/

namespace Highlight.Languages

/-- A style sheet with everything that is told apart in it. -/
def css : Build Grammar := do
  CssExtras.addTo (← Build.ofExcept Css.grammar)

def build? : String → Option (Build Grammar)
  | "brainfuck" => some (Build.ofExcept Brainfuck.grammar)
  | "clike" => some (Build.ofExcept CLike.grammar)
  | "css" => some css
  | "dart" => some Dart.grammar
  | "go" => some Go.grammar
  | "java" => some Java.grammar
  | "json" => some (Build.ofExcept Json.grammar)
  | _ => none

/-- The locator for all languages here. Those built on a common base ask for it in turn. -/
def locator : Locator where
  grammar name :=
    match build? name with
    | some build => do return some (← build.run)
    | none => .done none
  languages := ["brainfuck", "clike", "css", "dart", "go", "java", "json"]
  synonymOf name := if name = "jsonp" then some "json" else none
  depth := 2

def registry : Registry :=
  .withLocator locator

end Highlight.Languages
