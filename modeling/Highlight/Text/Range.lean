/-!
Stretches of a text, in offsets of 32 bits.
-/

namespace Highlight

/-- A stretch of a text, given by the byte offsets of its two ends. Offsets are 32 bits wide. -/
structure TextRange where
  start : UInt32
  stop : UInt32
  start_le_stop : start ≤ stop
deriving DecidableEq

namespace TextRange

/-- The range between two offsets, each cut down to 32 bits. There is none if the first then
lies behind the second. -/
def ofOffsets? (start stop : Nat) : Option TextRange :=
  let first := UInt32.ofNat start
  let last := UInt32.ofNat stop
  if h : first ≤ last then some ⟨first, last, h⟩ else none

def length (range : TextRange) : Nat :=
  range.stop.toNat - range.start.toNat

def isEmpty (range : TextRange) : Bool :=
  range.start == range.stop

theorem toNat_ofNat_of_lt {n : Nat} (h : n < UInt32.size) : (UInt32.ofNat n).toNat = n := by
  rw [UInt32.toNat_ofNat']
  exact Nat.mod_eq_of_lt h

/-- Offsets that fit have the range they stand for. -/
theorem ofOffsets?_eq_some_of_lt {start stop : Nat} (hle : start ≤ stop)
    (hlt : stop < UInt32.size) :
    ∃ range, ofOffsets? start stop = some range ∧
      range.start.toNat = start ∧ range.stop.toNat = stop := by
  have hfirst : (UInt32.ofNat start).toNat = start :=
    toNat_ofNat_of_lt (Nat.lt_of_le_of_lt hle hlt)
  have hlast : (UInt32.ofNat stop).toNat = stop := toNat_ofNat_of_lt hlt
  have h : UInt32.ofNat start ≤ UInt32.ofNat stop := by
    rw [UInt32.le_iff_toNat_le, hfirst, hlast]
    exact hle
  exact ⟨⟨_, _, h⟩, dif_pos h, hfirst, hlast⟩

end TextRange

end Highlight
