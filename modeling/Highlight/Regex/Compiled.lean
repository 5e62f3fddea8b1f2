import Highlight.Regex.Matching
import Highlight.Regex.Reading

/-!
Compiled regexes. Their source and flags determine them (`Regex.ext`).
-/

namespace Highlight

structure Regex.Flags where
  ignoreCase : Bool := false
  /-- Line anchors stand for the ends of the lines, not of the text. -/
  multiline : Bool := false
  /-- The dot stands for newlines too. -/
  dotAll : Bool := false
deriving DecidableEq

namespace Regex.Flags

def modes (flags : Flags) : Modes where
  ignoreCase := flags.ignoreCase
  dotAll := flags.dotAll
  extended := false
  lines := flags.multiline

end Regex.Flags

/-- A regex that has been read. Its source and flags determine the rest. -/
structure Regex where
  source : String
  flags : Regex.Flags
  program : Regex.Program
  read_eq : Regex.Program.read flags.modes source.toList = .ok program

namespace Regex

theorem ext {r s : Regex} (hsource : r.source = s.source) (hflags : r.flags = s.flags) :
    r = s := by
  obtain ⟨source, flags, program, hread⟩ := r
  obtain ⟨source', flags', program', hread'⟩ := s
  simp only at hsource hflags
  subst hsource hflags
  have hprogram : program = program' := by
    rw [hread] at hread'
    exact Except.ok.inj hread'
  subst hprogram
  rfl

def compile (source : String) (flags : Flags) : Except SyntaxError Regex :=
  match h : Program.read flags.modes source.toList with
  | .ok program => .ok ⟨source, flags, program, h⟩
  | .error e => .error e

def groupCount (r : Regex) : Nat :=
  r.program.groups

def search? (r : Regex) (c : Cursor) : Option Match :=
  r.program.expr.search? c

end Regex

end Highlight
