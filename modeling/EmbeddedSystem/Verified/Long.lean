/-!
# The 64-bit `long`

A `long` is a `BitVec 64` read in two's complement.  Its operations are those
of the integers with wrap-around: an operation whose exact result fits has that
result, and the sum of two non-negative numbers that does not fit is negative.
As an `int` it keeps its value if that fits.
-/

set_option autoImplicit false

namespace EmbeddedSystem.Verified.Long

/-- The `long` that is left of an integer. -/
def wrap (n : Int) : Int := n.bmod 0x10000000000000000

theorem toInt_add (x y : BitVec 64) :
    (x + y).toInt = wrap (x.toInt + y.toInt) :=
  BitVec.toInt_add x y

theorem toInt_mul (x y : BitVec 64) :
    (x * y).toInt = wrap (x.toInt * y.toInt) :=
  BitVec.toInt_mul x y

theorem toInt_add_of_lt {x y : BitVec 64} (hx : 0 ≤ x.toInt)
    (hy : 0 ≤ y.toInt) (h : x.toInt + y.toInt < 0x8000000000000000) :
    (x + y).toInt = x.toInt + y.toInt := by
  rw [BitVec.toInt_add]
  apply Int.bmod_eq_of_le <;> omega

theorem toInt_add_neg {x y : BitVec 64}
    (h : 0x8000000000000000 ≤ x.toInt + y.toInt) : (x + y).toInt < 0 := by
  have hx : x.toInt < 0x8000000000000000 := BitVec.toInt_lt
  have hy : y.toInt < 0x8000000000000000 := BitVec.toInt_lt
  have hwrap : (x + y).toInt = x.toInt + y.toInt - 0x10000000000000000 := by
    rw [BitVec.toInt_add, ← Int.sub_bmod_right]
    apply Int.bmod_eq_of_le <;> omega
  omega

/-- A decrement is exact above the least `long`. -/
theorem toInt_pred_of_lt {x : BitVec 64} (hx : -0x8000000000000000 < x.toInt) :
    (x - 1).toInt = x.toInt - 1 := by
  have hone : (1 : BitVec 64).toInt = 1 := by decide
  have hlt : x.toInt < 0x8000000000000000 := BitVec.toInt_lt
  rw [BitVec.toInt_sub, hone]
  apply Int.bmod_eq_of_le <;> omega

theorem toInt_pred {x : BitVec 64} (hx : 0 ≤ x.toInt) :
    (x - 1).toInt = x.toInt - 1 :=
  toInt_pred_of_lt (by omega)

/-- An increment adds at most 1. -/
theorem toInt_succ_le (x : BitVec 64) : (x + 1).toInt ≤ x.toInt + 1 := by
  have hone : (1 : BitVec 64).toInt = 1 := by decide
  have hle : -0x8000000000000000 ≤ x.toInt := BitVec.le_toInt x
  rcases Int.lt_or_le (x.toInt + 1) 0x8000000000000000 with hfits | hwraps
  · have hexact : (x + 1).toInt = x.toInt + 1 := by
      rw [BitVec.toInt_add, hone, Int.bmod_eq_of_le (by omega) (by omega)]
    exact Int.le_of_eq hexact
  · have hneg := toInt_add_neg (x := x) (y := 1) (by rw [hone]; exact hwraps)
    omega

theorem toInt_eq_toNat {x : BitVec 64} (hx : x.toNat < 0x8000000000000000) :
    x.toInt = x.toNat :=
  BitVec.toInt_eq_toNat_of_lt (by omega)

theorem toNat_eq_toInt {x : BitVec 64} (hx : 0 ≤ x.toInt) :
    (x.toNat : Int) = x.toInt := by
  have hlt : x.toNat < 2 ^ 64 := x.isLt
  rw [BitVec.toInt_eq_toNat_cond] at hx ⊢
  split at hx
  · rw [if_pos (by assumption)]
  · omega

/-- `(int) x` -/
def toCInt (x : BitVec 64) : Int := (x.setWidth 32).toInt

theorem toCInt_eq_bmod (x : BitVec 64) :
    toCInt x = x.toInt.bmod 0x100000000 := by
  unfold toCInt
  rw [← BitVec.signExtend_eq_setWidth_of_le x (by decide)]
  exact BitVec.toInt_signExtend x

theorem toCInt_eq_iff (x : BitVec 64) :
    toCInt x = x.toInt ↔ -0x80000000 ≤ x.toInt ∧ x.toInt < 0x80000000 := by
  rw [toCInt_eq_bmod]
  constructor
  · intro h
    have hle := Int.le_bmod (x := x.toInt) (m := 0x100000000) (by decide)
    have hlt := Int.bmod_lt (x := x.toInt) (m := 0x100000000) (by decide)
    omega
  · intro h
    exact Int.bmod_eq_of_le (by omega) (by omega)

end EmbeddedSystem.Verified.Long
