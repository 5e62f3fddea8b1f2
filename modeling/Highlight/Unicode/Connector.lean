import Highlight.Unicode.CodeSet

namespace Highlight.Unicode

/-- Connecting punctuation such as the low line, the category Pc. -/
def connector : CodeSet := .ofBoundaries [
  95, 96, 8255, 8257, 8276, 8277, 65075, 65077, 65101, 65104, 65343, 65344]

end Highlight.Unicode
