import Highlight.Grammar.Basic
import Highlight.Text.Quoted

/-!
Patterns as they are shown in diagnostics.
-/

namespace Highlight

open Text.Quoted (quote quote?)

def Regex.Flags.summary (flags : Regex.Flags) : String :=
  "PatternFlags \x7b case_insensitive: " ++ toString flags.ignoreCase ++
    ", multiline: " ++ toString flags.multiline ++
    ", dot_all: " ++ toString flags.dotAll ++ " \x7d"

/-- A pattern in one line, where a grammar inside it is given by its name. -/
def Pattern.summary (p : Pattern) : String :=
  "Pattern \x7b source: " ++ quote p.source ++
    ", flags: " ++ p.flags.summary ++
    ", lookbehind: " ++ toString p.lookbehind ++
    ", global: " ++ toString p.global ++
    ", alias: " ++ quote? p.label ++
    ", inside: " ++ quote? (p.inside.map (·.name)) ++ " \x7d"

end Highlight
