import EmbeddedSystem.Verified.CString
import EmbeddedSystem.Verified.Uaccess

/-!
# The calculator of `ch2_mod_202111360.c`

The module keeps one `long`, and `ch2_ioctl` sets it, adds to it, multiplies it
and returns it.  The module's arithmetic is that of the integers with
wrap-around (`toInt_perform`), but its result is the return value of the
`ioctl`.  There the values from -4095 to -1 are error numbers, and what is left
is an `int` for the program (`getAfter_eq_iff`).
-/

set_option autoImplicit false

namespace EmbeddedSystem.Labs.Ch2Calculator

open EmbeddedSystem.Verified
open EmbeddedSystem.Verified.CString
open EmbeddedSystem.Verified.Uaccess

/-! ## `ch2_mod_202111360.c` -/

/-- `'c'` -/
def ch2IoctlNum : Nat := 0x63

def ch2Get : Nat := iowr ch2IoctlNum 1 8
def ch2Set : Nat := iowr ch2IoctlNum 2 8
def ch2Add : Nat := iowr ch2IoctlNum 3 8
def ch2Mul : Nat := iowr ch2IoctlNum 4 8

/-- `static long result` when the module is loaded. -/
def ch2Init : BitVec 64 := 0

/-- `ch2_ioctl`: the new `result`, and what it returns. -/
def ch2Ioctl (result : BitVec 64) (cmd : Nat) (arg : BitVec 64) :
    BitVec 64 × BitVec 64 :=
  if cmd = ch2Get then (result, result)
  else if cmd = ch2Set then (arg, arg)
  else if cmd = ch2Add then (result + arg, result + arg)
  else if cmd = ch2Mul then (result * arg, result * arg)
  else (result, -1)

/-- `ioctl` in a program: the new `result`, and what the program gets. -/
def ioctl (result : BitVec 64) (cmd : Nat) (arg : BitVec 64) :
    BitVec 64 × Int :=
  ((ch2Ioctl result cmd arg).1, ioctlReturn (ch2Ioctl result cmd arg).2)

/-! ## `ch2_mod_202111360_app.c` -/

/-- `ioctl(dev, cmd, arg); result = ioctl(dev, CH2_GET, NULL);`, and the line
that `printf` writes. -/
def callAndPrint (result : BitVec 64) (cmd : Nat) (arg : BitVec 64) :
    BitVec 64 × Bytes :=
  let called := (ioctl result cmd arg).1
  let got := ioctl called ch2Get 0
  (got.1, decimal got.2 ++ [newline])

/-- `main`: what it leaves in the module, and what it prints. -/
def main (result : BitVec 64) : BitVec 64 × Bytes :=
  let first := callAndPrint result ch2Set 200
  let second := callAndPrint first.1 ch2Add 300
  let third := callAndPrint second.1 ch2Mul 100
  (third.1, first.2 ++ second.2 ++ third.2)

/-- `main` prints the same whatever the module was left with. -/
theorem main_prints (result : BitVec 64) :
    main result = (50000, ascii "200\n500\n50000\n") := by
  have hset : ch2Ioctl result ch2Set 200 = (200, 200) := by
    unfold ch2Ioctl
    rw [if_neg (by decide), if_pos rfl]
  unfold main callAndPrint ioctl
  rw [hset]
  decide +kernel

/-! ## Sequences of operations -/

/-- A call of `ioctl` that computes. -/
inductive Op where
  | set (arg : BitVec 64)
  | add (arg : BitVec 64)
  | mul (arg : BitVec 64)
deriving DecidableEq, Repr

def Op.cmd : Op → Nat
  | .set _ => ch2Set
  | .add _ => ch2Add
  | .mul _ => ch2Mul

def Op.arg : Op → BitVec 64
  | .set arg => arg
  | .add arg => arg
  | .mul arg => arg

/-- What the module computes in the calls one after the other. -/
def perform (result : BitVec 64) : List Op → BitVec 64
  | [] => result
  | op :: ops => perform (ioctl result op.cmd op.arg).1 ops

/-- What a program gets from a `CH2_GET` after them. -/
def getAfter (result : BitVec 64) (ops : List Op) : Int :=
  (ioctl (perform result ops) ch2Get 0).2

/-- What they come to on long integers with wrap-around. -/
def value (v : Int) : List Op → Int
  | [] => v
  | .set arg :: ops => value arg.toInt ops
  | .add arg :: ops => value (Long.wrap (v + arg.toInt)) ops
  | .mul arg :: ops => value (Long.wrap (v * arg.toInt)) ops

@[simp] theorem ioctl_get (result arg : BitVec 64) :
    ioctl result ch2Get arg = (result, ioctlReturn result) := rfl

@[simp] theorem ioctl_set (result arg : BitVec 64) :
    (ioctl result ch2Set arg).1 = arg := rfl

@[simp] theorem ioctl_add (result arg : BitVec 64) :
    (ioctl result ch2Add arg).1 = result + arg := rfl

@[simp] theorem ioctl_mul (result arg : BitVec 64) :
    (ioctl result ch2Mul arg).1 = result * arg := rfl

/-- The module computes what the operations come to. -/
theorem toInt_perform (result : BitVec 64) (ops : List Op) :
    (perform result ops).toInt = value result.toInt ops := by
  induction ops generalizing result with
  | nil => rfl
  | cons op ops ih =>
      cases op with
      | set arg => exact ih arg
      | add arg =>
          rw [value, ← Long.toInt_add]
          exact ih (result + arg)
      | mul arg =>
          rw [value, ← Long.toInt_mul]
          exact ih (result * arg)

/-! ## What arrives -/

/-- The program gets the value of the operations if and only if it is an `int`
and not one of the error numbers from -4095 to -2. -/
theorem getAfter_eq_iff (result : BitVec 64) (ops : List Op) :
    getAfter result ops = value result.toInt ops ↔
      (-0x80000000 ≤ value result.toInt ops ∧
        value result.toInt ops < 0x80000000) ∧
      ¬ (-4095 ≤ value result.toInt ops ∧ value result.toInt ops ≤ -2) := by
  rw [getAfter, ioctl_get, ← toInt_perform]
  exact ioctlReturn_eq_iff (perform result ops)

/-- A result that looks like an error number, and one that is too large. -/
theorem getAfter_lost :
    (getAfter ch2Init [.set (-5)] = -1 ∧
      value ch2Init.toInt [.set (-5)] = -5) ∧
    getAfter ch2Init [.set 100000, .mul 100000] = 1410065408 ∧
      value ch2Init.toInt [.set 100000, .mul 100000] = 10000000000 := by
  decide +kernel

end EmbeddedSystem.Labs.Ch2Calculator
