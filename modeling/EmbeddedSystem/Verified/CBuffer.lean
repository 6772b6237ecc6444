import EmbeddedSystem.Verified.CString
import Mathlib.Data.Nat.Digits.Lemmas

/-!
# Character arrays

A `char` array of `n` bytes, what `copy_from_user` puts at its start, and what
a C string that is stored there leaves of it.  A store that is too long
fills the array and goes on behind it; `past` are the bytes that it writes
there.  The last section is about an `int` that lies there.
-/

set_option autoImplicit false

namespace EmbeddedSystem.Verified

open EmbeddedSystem.Verified.CString

/-- The contents of a `char` array of size `n`. -/
@[ext] structure CBuffer (n : Nat) where
  bytes : Bytes
  length_eq : bytes.length = n
deriving DecidableEq, Repr

namespace CBuffer

variable {n : Nat}

/-- After `memset(b, 0, n)`. -/
def zeros (n : Nat) : CBuffer n := ⟨List.replicate n 0, List.length_replicate⟩

/-- `b[i] = c` -/
def set (b : CBuffer n) (i : Nat) (c : UInt8) : CBuffer n :=
  ⟨b.bytes.set i c, by rw [List.length_set, b.length_eq]⟩

/-- `src` written from `b[0]` on; only the first `n` bytes land in `b`. -/
def store (b : CBuffer n) (src : Bytes) : CBuffer n where
  bytes := (src ++ b.bytes.drop src.length).take n
  length_eq := by
    rw [List.length_take, List.length_append, List.length_drop, b.length_eq]
    omega

/-- The bytes of `src` that are written behind an array of size `n`. -/
def past (n : Nat) (src : Bytes) : Bytes := src.drop n

/-- What a `copy_from_user` of `src` writes if it cannot copy the last `left`
bytes: these are set to zero. -/
def received (src : Bytes) (left : Nat) : Bytes :=
  src.take (src.length - left) ++ List.replicate (min left src.length) 0

/-- And what it returns. -/
def notCopied (src : Bytes) (left : Nat) : Nat := min left src.length

@[simp] theorem length_received (src : Bytes) (left : Nat) :
    (received src left).length = src.length := by
  unfold received
  rw [List.length_append, List.length_take, List.length_replicate]
  omega

/-- A copy that returns 0 has copied every byte. -/
theorem received_of_notCopied {src : Bytes} {left : Nat}
    (h : notCopied src left = 0) : received src left = src := by
  unfold notCopied at h
  unfold received
  rw [h, List.take_of_length_le (by omega)]
  exact List.append_nil src

/-- What fits is stored, and leaves the rest alone. -/
theorem store_of_le (b : CBuffer n) {src : Bytes} (h : src.length ≤ n) :
    (b.store src).bytes = src ++ b.bytes.drop src.length := by
  apply List.take_of_length_le
  rw [List.length_append, List.length_drop, b.length_eq]
  omega

/-- What does not fit leaves nothing of what was there. -/
theorem store_of_ge (b : CBuffer n) {src : Bytes} (h : n ≤ src.length) :
    (b.store src).bytes = src.take n :=
  List.take_append_of_le_length h

theorem getElem?_store (b : CBuffer n) {src : Bytes} {i : Nat} (hi : i < n)
    (hsrc : i < src.length) : (b.store src).bytes[i]? = src[i]? := by
  show ((src ++ b.bytes.drop src.length).take n)[i]? = src[i]?
  rw [List.getElem?_take_of_lt hi, List.getElem?_append_left hsrc]

theorem past_eq_nil_iff (n : Nat) (src : Bytes) :
    past n src = [] ↔ src.length ≤ n :=
  List.drop_eq_nil_iff

/-- There is a C string in the array, and it is this one. -/
def Holds (b : CBuffer n) (str : Bytes) : Prop :=
  0 ∈ b.bytes ∧ text b.bytes = str

instance (b : CBuffer n) (str : Bytes) : Decidable (b.Holds str) :=
  inferInstanceAs (Decidable (_ ∧ _))

theorem Holds.unique {b : CBuffer n} {s s' : Bytes} (h : b.Holds s)
    (h' : b.Holds s') : s = s' :=
  h.2.symm.trans h'.2

theorem Holds.nulFree {b : CBuffer n} {s : Bytes} (h : b.Holds s) : 0 ∉ s :=
  h.2 ▸ nulFree_text b.bytes

/-- The string and its NUL are in the array. -/
theorem Holds.length_lt {b : CBuffer n} {s : Bytes} (h : b.Holds s) :
    s.length < n := by
  have hprefix : text b.bytes <+: b.bytes := List.takeWhile_prefix _
  have hle := hprefix.length_le
  rw [h.2, b.length_eq] at hle
  rcases Nat.lt_or_eq_of_le hle with hlt | heq
  · exact hlt
  · have hself : text b.bytes = b.bytes := by
      apply hprefix.eq_of_length
      rw [h.2, b.length_eq, heq]
    exact absurd (hself.symm ▸ h.1 : 0 ∈ text b.bytes)
      (nulFree_text b.bytes)

/-- A C string that is stored with its NUL. -/
theorem holds_store_iff (b : CBuffer n) {token str : Bytes}
    (h : 0 ∉ token) :
    (b.store (token ++ [0])).Holds str ↔ token.length < n ∧ str = token := by
  rcases Nat.lt_or_ge token.length n with hlt | hge
  · have hlen : (token ++ [0]).length ≤ n := by
      rw [List.length_append]
      exact hlt
    rw [Holds, store_of_le b hlen, List.append_assoc]
    show 0 ∈ token ++ 0 :: _ ∧ text (token ++ 0 :: _) = str ↔ _
    rw [text_append_nul h]
    constructor
    · exact fun hs => ⟨hlt, hs.2.symm⟩
    · exact fun hs => ⟨List.mem_append_right _ List.mem_cons_self, hs.2.symm⟩
  · refine iff_of_false ?_ (fun hs => by omega)
    intro hs
    have hle : n ≤ (token ++ [0]).length := by
      rw [List.length_append]
      omega
    have hbytes := store_of_ge b hle
    rw [List.take_append_of_le_length hge] at hbytes
    have hmem := hs.1
    rw [hbytes] at hmem
    exact h (List.mem_of_mem_take hmem)

/-! ## The bytes of an `int` -/

/-- The bytes of `val` in memory, the lowest one first. -/
def ofInt (val : BitVec 32) : CBuffer 4 :=
  ⟨[val.toNat, val.toNat / 0x100, val.toNat / 0x10000,
      val.toNat / 0x1000000].map UInt8.ofNat, rfl⟩

/-- The `int` whose bytes these are. -/
def toInt (b : CBuffer 4) : BitVec 32 :=
  BitVec.ofNat 32 (Nat.ofDigits 256 (b.bytes.map UInt8.toNat))

@[simp] theorem toInt_ofInt (val : BitVec 32) : toInt (ofInt val) = val := by
  have hlt := val.isLt
  apply BitVec.eq_of_toNat_eq
  simp only [toInt, ofInt, List.map_cons, List.map_nil, Nat.ofDigits_cons,
    Nat.ofDigits_nil, UInt8.toNat_ofNat', BitVec.toNat_ofNat]
  omega

theorem toInt_inj {a b : CBuffer 4} : toInt a = toInt b ↔ a = b := by
  have hdigit : ∀ c : CBuffer 4, ∀ d ∈ c.bytes.map UInt8.toNat, d < 256 := by
    intro c d hd
    obtain ⟨x, -, rfl⟩ := List.mem_map.mp hd
    exact x.toNat_lt
  have hlen : ∀ c : CBuffer 4, (c.bytes.map UInt8.toNat).length = 4 := by
    intro c
    rw [List.length_map, c.length_eq]
  have hbound : ∀ c : CBuffer 4,
      Nat.ofDigits 256 (c.bytes.map UInt8.toNat) < 0x100000000 := by
    intro c
    have hlt := Nat.ofDigits_lt_base_pow_length (by decide) (hdigit c)
    rw [hlen c] at hlt
    exact hlt
  constructor
  · intro h
    have heq := congrArg BitVec.toNat h
    simp only [toInt, BitVec.toNat_ofNat] at heq
    rw [Nat.mod_eq_of_lt (hbound a), Nat.mod_eq_of_lt (hbound b)] at heq
    have hmap := Nat.ofDigits_inj_of_len_eq (by decide)
      ((hlen a).trans (hlen b).symm) (hdigit a) (hdigit b) heq
    exact CBuffer.ext
      (List.map_injective_iff.mpr (fun x y => UInt8.toNat_inj.mp) hmap)
  · exact fun h => h ▸ rfl

end CBuffer

end EmbeddedSystem.Verified
