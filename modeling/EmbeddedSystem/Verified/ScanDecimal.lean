import EmbeddedSystem.Verified.Sscanf

/-!
# A number that was printed is scanned back

`%d` prints the digits that `sscanf` reads with `%d`, and a minus in front of
them if the number is negative.  Whatever follows that is no digit, the scan
takes the number and stops behind it (`scanInt_decimal`).
-/

set_option autoImplicit false

namespace EmbeddedSystem.Verified.Sscanf

open EmbeddedSystem.Verified.CString

/-- The digits of `n` as they are printed. -/
def digitBytes (n : Nat) : Bytes :=
  (Nat.toDigits 10 n).map fun c => UInt8.ofNat c.toNat

theorem toNat_digitByte {n : Nat} {c : Char} (h : c ∈ Nat.toDigits 10 n) :
    (UInt8.ofNat c.toNat).toNat = c.toNat := by
  have hrange := digit_range h
  rw [UInt8.toNat_ofNat']
  omega

theorem isDigit_digitBytes {n : Nat} {b : UInt8} (h : b ∈ digitBytes n) :
    isDigit b = true := by
  obtain ⟨c, hc, rfl⟩ := List.mem_map.mp h
  have hrange := digit_range hc
  have hbyte := toNat_digitByte hc
  unfold isDigit
  rw [Bool.and_eq_true, decide_eq_true_eq, decide_eq_true_eq,
    UInt8.le_iff_toNat_le, UInt8.le_iff_toNat_le, hbyte]
  exact hrange

theorem digitBytes_ne_nil (n : Nat) : digitBytes n ≠ [] := by
  intro h
  exact Nat.toDigits_ne_nil (List.map_eq_nil_iff.mp h)

/-- The sum that `simple_strtoull` forms is the one that the digits stand
for, modulo 2⁶⁴. -/
theorem foldl_digits {cs : List Char} (m : Nat)
    (h : ∀ c ∈ cs, (UInt8.ofNat c.toNat).toNat = c.toNat) :
    (cs.map fun c => UInt8.ofNat c.toNat).foldl
        (fun res c => res * 10 + BitVec.ofNat 64 (c.toNat - 48))
        (BitVec.ofNat 64 m) =
      BitVec.ofNat 64 (Nat.ofDigitChars 10 cs m) := by
  induction cs generalizing m with
  | nil => rw [List.map_nil, List.foldl_nil, Nat.ofDigitChars_nil]
  | cons c cs ih =>
      have hstep : BitVec.ofNat 64 m * 10 +
          BitVec.ofNat 64 ((UInt8.ofNat c.toNat).toNat - 48) =
          BitVec.ofNat 64 (10 * m + (c.toNat - '0'.toNat)) := by
        rw [h c List.mem_cons_self, BitVec.ofNat_add, BitVec.ofNat_mul,
          BitVec.mul_comm]
        rfl
      rw [List.map_cons, List.foldl_cons, hstep,
        ih _ fun d hd => h d (List.mem_cons_of_mem c hd),
        Nat.ofDigitChars_cons]

/-- A run of digits, and something else behind it. -/
theorem span_digitBytes (n : Nat) {r : Bytes}
    (hr : ∀ c ∈ r.head?, isDigit c = false) :
    (digitBytes n ++ r).takeWhile isDigit = digitBytes n ∧
      (digitBytes n ++ r).dropWhile isDigit = r := by
  have hall : ∀ c ∈ digitBytes n, isDigit c = true :=
    fun c hc => isDigit_digitBytes hc
  rw [List.takeWhile_append_of_pos hall, List.dropWhile_append_of_pos hall]
  cases r with
  | nil => exact ⟨List.append_nil _, rfl⟩
  | cons c r =>
      have hc : ¬ isDigit c = true := by simp [hr c rfl]
      rw [List.takeWhile_cons_of_neg hc, List.dropWhile_cons_of_neg hc]
      exact ⟨List.append_nil _, rfl⟩

theorem simpleStrtoull_digitBytes (n : Nat) {r : Bytes}
    (hr : ∀ c ∈ r.head?, isDigit c = false) :
    simpleStrtoull (digitBytes n ++ r) = BitVec.ofNat 64 n := by
  rw [simpleStrtoull, (span_digitBytes n hr).1, digitBytes]
  have hdigits : ∀ c ∈ Nat.toDigits 10 n,
      (UInt8.ofNat c.toNat).toNat = c.toNat :=
    fun c hc => toNat_digitByte hc
  have hfold := foldl_digits 0 hdigits
  rw [Nat.ofDigitChars_ten_toDigits] at hfold
  exact hfold

theorem decimal_eq (n : Int) :
    decimal n = if n < 0 then minus :: digitBytes n.natAbs
      else digitBytes n.natAbs := by
  unfold decimal
  dsimp only
  split <;> rfl

/-- A digit is no white space and no minus. -/
theorem digit_not_space {c : UInt8} (h : isDigit c = true) :
    isSpace c = false ∧ c ≠ minus := by
  unfold isDigit at h
  rw [Bool.and_eq_true, decide_eq_true_eq, decide_eq_true_eq,
    UInt8.le_iff_toNat_le, UInt8.le_iff_toNat_le] at h
  have hlo : 48 ≤ c.toNat := h.1
  have hhi : c.toNat ≤ 57 := h.2
  have hne : ∀ k : UInt8, k.toNat < 48 ∨ 57 < k.toNat → c ≠ k := by
    rintro k hk rfl
    omega
  refine ⟨?_, hne minus (by decide)⟩
  unfold isSpace
  have h13 : ¬ c ≤ 13 := by
    rw [UInt8.le_iff_toNat_le]
    have : (13 : UInt8).toNat = 13 := rfl
    omega
  simp [h13, hne 32 (by decide), hne 160 (by decide)]

/-- The absolute value of a negative `int`, negated in 64 bits and stored in
32. -/
theorem setWidth_neg_natAbs {val : BitVec 32} (h : val.toInt < 0) :
    (-BitVec.ofNat 64 val.toInt.natAbs).setWidth 32 = val := by
  apply BitVec.eq_of_toNat_eq
  have hval := BitVec.toInt_eq_toNat_cond val
  have hlt := val.isLt
  simp only [BitVec.toNat_setWidth, BitVec.toNat_neg, BitVec.toNat_ofNat]
  split at hval <;> omega

theorem setWidth_natAbs {val : BitVec 32} (h : ¬ val.toInt < 0) :
    (BitVec.ofNat 64 val.toInt.natAbs).setWidth 32 = val := by
  apply BitVec.eq_of_toNat_eq
  have hval := BitVec.toInt_eq_toNat_cond val
  have hlt := val.isLt
  simp only [BitVec.toNat_setWidth, BitVec.toNat_ofNat]
  split at hval <;> omega

/-- The scan takes the number that was printed and stops behind it. -/
theorem scanInt_decimal (val : BitVec 32) {r : Bytes}
    (hr : ∀ c ∈ r.head?, isDigit c = false) :
    scanInt (decimal val.toInt ++ r) = some (val, r) := by
  obtain ⟨d, ds, hds⟩ := List.exists_cons_of_ne_nil
    (digitBytes_ne_nil val.toInt.natAbs)
  have hd : isDigit d = true := by
    apply isDigit_digitBytes (n := val.toInt.natAbs)
    rw [hds]
    exact List.mem_cons_self
  have hspan := span_digitBytes val.toInt.natAbs hr
  have hval := simpleStrtoull_digitBytes val.toInt.natAbs hr
  have hany : (digitBytes val.toInt.natAbs ++ r).head?.any isDigit = true := by
    rw [hds]
    exact hd
  rw [decimal_eq]
  by_cases hneg : val.toInt < 0
  · rw [if_pos hneg]
    have hskip : skipSpaces (minus :: digitBytes val.toInt.natAbs ++ r) =
        minus :: (digitBytes val.toInt.natAbs ++ r) := rfl
    have hat : digitsAt (minus :: digitBytes val.toInt.natAbs ++ r) =
        digitBytes val.toInt.natAbs ++ r := by
      rw [digitsAt, hskip]
      rfl
    rw [scanInt, hat, if_pos hany, hskip, List.head?_cons, hval, hspan.2]
    dsimp only
    rw [if_pos rfl, setWidth_neg_natAbs hneg]
  · rw [if_neg hneg]
    have hskip : skipSpaces (digitBytes val.toInt.natAbs ++ r) =
        digitBytes val.toInt.natAbs ++ r := by
      rw [hds]
      exact List.dropWhile_cons_of_neg (by simp [(digit_not_space hd).1])
    have hhead : (digitBytes val.toInt.natAbs ++ r).head? ≠ some minus := by
      rw [hds]
      intro h
      exact (digit_not_space hd).2 (Option.some.inj h)
    have hat : digitsAt (digitBytes val.toInt.natAbs ++ r) =
        digitBytes val.toInt.natAbs ++ r := by
      rw [digitsAt, hskip, if_neg hhead]
    rw [scanInt, hat, if_pos hany, hskip, hval, hspan.2]
    dsimp only
    rw [if_neg hhead, setWidth_natAbs hneg]

end EmbeddedSystem.Verified.Sscanf
