import Mathlib.Algebra.Ring.Int.Defs
import Mathlib.Algebra.Ring.Nat

/-!
# Serial numbers

Counters that wrap around at 2 ^ 32, compared by the sign of their difference.

* `serialDiff a b`: the difference of two serial numbers, between -2 ^ 31 and 2 ^ 31.
* `serialDiff_ofNat`: it is the true difference of counters that are close enough.
-/

namespace Serial

/-- The difference of two serial numbers as a signed 32-bit number. -/
def serialDiff (a b : UInt32) : Int := (a - b).toInt32.toInt

/-- Where two counters are less than half a turn apart, the sign of the difference of their serial
numbers is right. -/
theorem serialDiff_ofNat {a b : Nat} (hlt : a < b + 2 ^ 31) (hle : b ≤ a + 2 ^ 31) :
    serialDiff (UInt32.ofNat a) (UInt32.ofNat b) = (a : Int) - b := by
  have hmod : serialDiff (UInt32.ofNat a) (UInt32.ofNat b) = ((a : Int) - b).bmod (2 ^ 32) := by
    change (BitVec.ofNat 32 a - BitVec.ofNat 32 b).toInt = _
    rw [BitVec.toInt_sub, BitVec.toInt_ofNat', BitVec.toInt_ofNat', Int.sub_bmod_bmod,
      Int.bmod_sub_bmod]
  rw [hmod]
  exact Int.bmod_eq_of_le (by omega) (by omega)

/-- Close counters have different serial numbers. -/
theorem ofNat_inj {a b : Nat} (hlt : a < b + 2 ^ 31) (hle : b ≤ a + 2 ^ 31)
    (h : UInt32.ofNat a = UInt32.ofNat b) : a = b := by
  have hdiff := serialDiff_ofNat hlt hle
  rw [h, serialDiff, UInt32.sub_self] at hdiff
  have hzero : (0 : UInt32).toInt32.toInt = 0 := rfl
  omega

end Serial
