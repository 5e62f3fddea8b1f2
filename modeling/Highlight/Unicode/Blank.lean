import Highlight.Unicode.CodeSet

namespace Highlight.Unicode

/-- Space separators, the category Zs, and the tab. -/
def blank : CodeSet := .ofBoundaries [
  9, 10, 32, 33, 160, 161, 5760, 5761, 8192, 8203, 8239, 8240, 8287, 8288, 12288, 12289]

end Highlight.Unicode
