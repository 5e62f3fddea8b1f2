import Highlight.Unicode.CodeSet

namespace Highlight.Unicode

/-- Control characters, the category Cc. -/
def control : CodeSet := .ofBoundaries [
  0, 32, 127, 160]

end Highlight.Unicode
