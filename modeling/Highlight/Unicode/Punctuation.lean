import Highlight.Unicode.CodeSet

namespace Highlight.Unicode

/-- Punctuation, the categories Pc, Pd, Ps, Pe, Pi, Pf and Po, with the ASCII symbols among it. -/
def punctuation : CodeSet := .ofBoundaries [
  33, 48, 58, 65, 91, 97, 123, 127, 161, 162, 167, 168, 171, 172, 182, 184, 187, 188, 191, 192,
  894, 895, 903, 904, 1370, 1376, 1417, 1419, 1470, 1471, 1472, 1473, 1475, 1476, 1478, 1479,
  1523, 1525, 1545, 1547, 1548, 1550, 1563, 1564, 1565, 1568, 1642, 1646, 1748, 1749, 1792,
  1806, 2039, 2042, 2096, 2111, 2142, 2143, 2404, 2406, 2416, 2417, 2557, 2558, 2678, 2679,
  2800, 2801, 3191, 3192, 3204, 3205, 3572, 3573, 3663, 3664, 3674, 3676, 3844, 3859, 3860,
  3861, 3898, 3902, 3973, 3974, 4048, 4053, 4057, 4059, 4170, 4176, 4347, 4348, 4960, 4969,
  5120, 5121, 5742, 5743, 5787, 5789, 5867, 5870, 5941, 5943, 6100, 6103, 6104, 6107, 6144,
  6155, 6468, 6470, 6686, 6688, 6816, 6823, 6824, 6830, 7002, 7009, 7037, 7039, 7164, 7168,
  7227, 7232, 7294, 7296, 7360, 7368, 7379, 7380, 8208, 8232, 8240, 8260, 8261, 8274, 8275,
  8287, 8317, 8319, 8333, 8335, 8968, 8972, 9001, 9003, 10088, 10102, 10181, 10183, 10214,
  10224, 10627, 10649, 10712, 10716, 10748, 10750, 11513, 11517, 11518, 11520, 11632, 11633,
  11776, 11823, 11824, 11856, 11858, 11870, 12289, 12292, 12296, 12306, 12308, 12320, 12336,
  12337, 12349, 12350, 12448, 12449, 12539, 12540, 42238, 42240, 42509, 42512, 42611, 42612,
  42622, 42623, 42738, 42744, 43124, 43128, 43214, 43216, 43256, 43259, 43260, 43261, 43310,
  43312, 43359, 43360, 43457, 43470, 43486, 43488, 43612, 43616, 43742, 43744, 43760, 43762,
  44011, 44012, 64830, 64832, 65040, 65050, 65072, 65107, 65108, 65122, 65123, 65124, 65128,
  65129, 65130, 65132, 65281, 65284, 65285, 65291, 65292, 65296, 65306, 65308, 65311, 65313,
  65339, 65342, 65343, 65344, 65371, 65372, 65373, 65374, 65375, 65382, 65792, 65795, 66463,
  66464, 66512, 66513, 66927, 66928, 67671, 67672, 67871, 67872, 67903, 67904, 68176, 68185,
  68223, 68224, 68336, 68343, 68409, 68416, 68505, 68509, 69293, 69294, 69461, 69466, 69510,
  69514, 69703, 69710, 69819, 69821, 69822, 69826, 69952, 69956, 70004, 70006, 70085, 70089,
  70093, 70094, 70107, 70108, 70109, 70112, 70200, 70206, 70313, 70314, 70731, 70736, 70746,
  70748, 70749, 70750, 70854, 70855, 71105, 71128, 71233, 71236, 71264, 71277, 71353, 71354,
  71484, 71487, 71739, 71740, 72004, 72007, 72162, 72163, 72255, 72263, 72346, 72349, 72350,
  72355, 72448, 72458, 72769, 72774, 72816, 72818, 73463, 73465, 73539, 73552, 73727, 73728,
  74864, 74869, 77809, 77811, 92782, 92784, 92917, 92918, 92983, 92988, 92996, 92997, 93847,
  93851, 94178, 94179, 113823, 113824, 121479, 121484, 125278, 125280]

end Highlight.Unicode
