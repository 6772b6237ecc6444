import EmbeddedSystem.Verified.Long

/-!
# The border between kernel and user space

Error numbers, `ioctl` command numbers and results, and the `copy_*_user`
functions, which copy a block byte by byte and return how many bytes at its end
they could not copy.
-/

set_option autoImplicit false

namespace EmbeddedSystem.Verified.Uaccess

/-! ## Error numbers -/

def enomem : Int := 12
def efault : Int := 14
def einval : Int := 22
def erestartsys : Int := 512

/-! ## Command numbers -/

/-- `_IOWR(type, nr, size)`: two direction bits, 14 bits of size, then the
type and the number, one byte each. -/
def iowr (type nr size : Nat) : Nat :=
  3 <<< 30 ||| size <<< 16 ||| type <<< 8 ||| nr

/-- What the C library's `ioctl` returns for the result of the kernel: -1 for
an error number, which goes to `errno`, and else the result as an `int`. -/
def ioctlReturn (ret : BitVec 64) : Int :=
  if -4095 ≤ ret.toInt ∧ ret.toInt ≤ -1 then -1 else Long.toCInt ret

/-- A result that is no error number arrives if it fits, and of those that
look like one only -1 does. -/
theorem ioctlReturn_eq_iff (ret : BitVec 64) :
    ioctlReturn ret = ret.toInt ↔
      (-0x80000000 ≤ ret.toInt ∧ ret.toInt < 0x80000000) ∧
        ¬ (-4095 ≤ ret.toInt ∧ ret.toInt ≤ -2) := by
  unfold ioctlReturn
  split
  · omega
  · rw [Long.toCInt_eq_iff]
    omega

/-! ## Copies -/

/-- `copy_from_user` or `copy_to_user` with return value `left`: the block
`dst` after all but the last `left` bytes of `src` were copied into it. -/
def copyUser {n : Nat} (dst src : Vector UInt8 n) (left : Nat) :
    Vector UInt8 n :=
  Vector.ofFn fun i => if i.val < n - left then src[i] else dst[i]

/-- A copy that returns 0 has copied every byte. -/
@[simp] theorem copyUser_zero {n : Nat} (dst src : Vector UInt8 n) :
    copyUser dst src 0 = src := by
  ext i hi
  simp [copyUser]

/-- The kernel's buffer after a `copy_from_user` with return value `left`: the
last `left` bytes are set to zero. -/
def copyFromUser {n : Nat} (src : Vector UInt8 n) (left : Nat) :
    Vector UInt8 n :=
  Vector.ofFn fun i => if i.val < n - left then src[i] else 0

@[simp] theorem copyFromUser_zero {n : Nat} (src : Vector UInt8 n) :
    copyFromUser src 0 = src := by
  ext i hi
  simp [copyFromUser]

/-- The last `left` bytes of the block are zero. -/
def zeroTail {n : Nat} (src : Vector UInt8 n) (left : Nat) : Bool :=
  decide (∀ i : Fin n, n - left ≤ i.val → src[i] = 0)

@[simp] theorem zeroTail_zero {n : Nat} (src : Vector UInt8 n) :
    zeroTail src 0 = true :=
  decide_eq_true fun i hi => absurd i.isLt (Nat.not_lt.mpr hi)

/-- All but the last `left` bytes of two blocks are the same. -/
def sameFront {n : Nat} (a b : Vector UInt8 n) (left : Nat) : Bool :=
  decide (∀ i : Fin n, i.val < n - left → a[i] = b[i])

@[simp] theorem sameFront_self {n : Nat} (a : Vector UInt8 n) (left : Nat) :
    sameFront a a left = true :=
  decide_eq_true fun _ _ => rfl

/-- What a `copy_from_user` has left in the kernel's buffer. -/
theorem copyFromUser_eq_iff {n : Nat} (src buf : Vector UInt8 n)
    (left : Nat) :
    copyFromUser src left = buf ↔
      sameFront src buf left = true ∧ zeroTail buf left = true := by
  rw [sameFront, zeroTail, decide_eq_true_iff, decide_eq_true_iff]
  constructor
  · intro h
    have hbyte : ∀ i : Fin n, (if i.val < n - left then src[i] else 0) =
        buf[i] := by
      intro i
      have heq := congrArg (fun v : Vector UInt8 n => v[i]) h
      simpa [copyFromUser] using heq
    refine ⟨fun i hi => ?_, fun i hi => ?_⟩
    · rw [← hbyte i, if_pos hi]
    · rw [← hbyte i, if_neg (Nat.not_lt.mpr hi)]
  · rintro ⟨hfront, htail⟩
    refine Vector.ext fun i hi => ?_
    by_cases hlt : i < n - left
    · have hsame := hfront ⟨i, hi⟩ hlt
      simp only [copyFromUser, Vector.getElem_ofFn, if_pos hlt]
      exact hsame
    · have hzero := htail ⟨i, hi⟩ (Nat.le_of_not_lt hlt)
      simp only [copyFromUser, Vector.getElem_ofFn, if_neg hlt]
      exact hzero.symm

/-- What `copy_from_user` leaves behind is not missed if it is zero. -/
theorem copyFromUser_eq_self_iff {n : Nat} (src : Vector UInt8 n)
    (left : Nat) : copyFromUser src left = src ↔ zeroTail src left = true := by
  rw [copyFromUser_eq_iff, sameFront_self]
  exact and_iff_right rfl

end EmbeddedSystem.Verified.Uaccess
