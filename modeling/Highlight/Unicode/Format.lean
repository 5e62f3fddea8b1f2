import Highlight.Unicode.CodeSet

namespace Highlight.Unicode

/-- Invisible format characters, the category Cf. -/
def format : CodeSet := .ofBoundaries [
  173, 174, 1536, 1542, 1564, 1565, 1757, 1758, 1807, 1808, 2192, 2194, 2274, 2275, 6158, 6159,
  8203, 8208, 8234, 8239, 8288, 8293, 8294, 8304, 65279, 65280, 65529, 65532, 69821, 69822,
  69837, 69838, 78896, 78912, 113824, 113828, 119155, 119163, 917505, 917506, 917536, 917632]

end Highlight.Unicode
