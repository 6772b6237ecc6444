import EmbeddedSystem.Verified.CallPool
import EmbeddedSystem.Verified.Uaccess

/-!
# The message slot of `simple_spin.c`

`simple_spin_write` copies the caller's struct over the one in `kern_buf`, and
`simple_spin_read` copies that out and clears it, each of them in a single
`spin_lock` section.  Neither section looks at whether its user copy was
complete, and `simple_spin_ioctl` drops what they return.
-/

set_option autoImplicit false

namespace EmbeddedSystem.Labs.SimpleSpin

open EmbeddedSystem.Verified
open EmbeddedSystem.Verified.Uaccess

/-! ## `simple_spin.h` -/

def ioctlStartNum : Nat := 0x80
def ioctlNum1 : Nat := ioctlStartNum + 1
def ioctlNum2 : Nat := ioctlStartNum + 2

/-- `'z'` -/
def simpleIoctlNum : Nat := 0x7a

/-- `_IOWR(SIMPLE_IOCTL_NUM, IOCTL_NUM1, unsigned long *)` -/
def simpleSpinReadCmd : Nat := iowr simpleIoctlNum ioctlNum1 8

/-- `_IOWR(SIMPLE_IOCTL_NUM, IOCTL_NUM2, unsigned long *)` -/
def simpleSpinWriteCmd : Nat := iowr simpleIoctlNum ioctlNum2 8

/-- `struct str_st` byte for byte: `int len` and `char str[128]`. -/
abbrev StrSt := Vector UInt8 132

/-! ## The module -/

/-- A locked section that has run: the call, what was copied and how many
bytes of it were left behind. -/
inductive Section where
  | read (call : Nat) (got : StrSt) (left : Nat)
  | write (call : Nat) (msg : StrSt) (left : Nat)
deriving DecidableEq, Repr

/-- The contents of `kern_buf`.  `sections` records the locked sections; no
code reads it. -/
structure Spin where
  kernBuf : StrSt
  sections : List Section
deriving DecidableEq, Repr

/-- After `memset(kern_buf, '\0', sizeof(struct str_st))`. -/
def cleared : StrSt := Vector.replicate 132 0

/-- After a successful `simple_spin_init`. -/
def simpleSpinInit : Spin := ⟨cleared, []⟩

/-- The next statement of `simple_spin_read` or `simple_spin_write`; `ret` is
what it returns to `simple_spin_ioctl`. -/
inductive Pc where
  | lock
  | returned (ret : Nat)
deriving DecidableEq, Repr

/-- One of the two in flight, with the caller's struct. -/
structure UserCall where
  userBuf : StrSt
  pc : Pc
deriving DecidableEq, Repr

/-- One step of `simple_spin_read` by call `i`, after its delay.  `left` is
what `copy_to_user` returns. -/
def simpleSpinRead (g : Spin) (i : Nat) (r : UserCall) (left : Nat) :
    Option (Spin × UserCall) :=
  match r.pc with
  | .lock =>
      some (⟨cleared, g.sections ++ [.read i g.kernBuf left]⟩,
        ⟨copyUser r.userBuf g.kernBuf left, .returned left⟩)
  | .returned _ => none

/-- One step of `simple_spin_write` by call `i`.  `left` is what
`copy_from_user` returns. -/
def simpleSpinWrite (g : Spin) (i : Nat) (w : UserCall) (left : Nat) :
    Option (Spin × UserCall) :=
  match w.pc with
  | .lock =>
      some (⟨copyFromUser w.userBuf left,
          g.sections ++ [.write i w.userBuf left]⟩,
        { w with pc := .returned left })
  | .returned _ => none

/-- The arguments of an `ioctl` on the device; `arg` points to `userBuf`. -/
structure Ioctl where
  cmd : Nat
  userBuf : StrSt
deriving DecidableEq, Repr

/-- A call of `simple_spin_ioctl`, which returns 0 in any case. -/
inductive Call where
  | read (r : UserCall)
  | write (w : UserCall)
  | other
deriving DecidableEq, Repr

/-- The dispatch in `simple_spin_ioctl`; there is no `default` case. -/
def simpleSpinIoctl (k : Ioctl) : Call :=
  if k.cmd = simpleSpinReadCmd then .read ⟨k.userBuf, .lock⟩
  else if k.cmd = simpleSpinWriteCmd then .write ⟨k.userBuf, .lock⟩
  else .other

/-- One step of a call. -/
def simpleSpinStep (g : Spin) (i : Nat) (l : Call) (left : Nat) :
    Option (Spin × Call) :=
  match l with
  | .read r => (simpleSpinRead g i r left).map fun x => (x.1, .read x.2)
  | .write w => (simpleSpinWrite g i w left).map fun x => (x.1, .write x.2)
  | .other => none

/-- The steps of a call: the two locked sections. -/
inductive Step (g : Spin) (i : Nat) (left : Nat) :
    Call → Spin → Call → Prop where
  | read (userBuf : StrSt) :
      Step g i left (.read ⟨userBuf, .lock⟩)
        ⟨cleared, g.sections ++ [.read i g.kernBuf left]⟩
        (.read ⟨copyUser userBuf g.kernBuf left, .returned left⟩)
  | write (userBuf : StrSt) :
      Step g i left (.write ⟨userBuf, .lock⟩)
        ⟨copyFromUser userBuf left, g.sections ++ [.write i userBuf left]⟩
        (.write ⟨userBuf, .returned left⟩)

theorem simpleSpinStep_cases {g g' : Spin} {i left : Nat} {l l' : Call}
    (h : simpleSpinStep g i l left = some (g', l')) :
    Step g i left l g' l' := by
  cases l with
  | read r =>
      obtain ⟨userBuf, pc⟩ := r
      cases pc with
      | lock =>
          simp only [simpleSpinStep, simpleSpinRead, Option.map_some,
            Option.some.injEq, Prod.mk.injEq] at h
          obtain ⟨rfl, rfl⟩ := h
          exact .read userBuf
      | returned ret => simp [simpleSpinStep, simpleSpinRead] at h
  | write w =>
      obtain ⟨userBuf, pc⟩ := w
      cases pc with
      | lock =>
          simp only [simpleSpinStep, simpleSpinWrite, Option.map_some,
            Option.some.injEq, Prod.mk.injEq] at h
          obtain ⟨rfl, rfl⟩ := h
          exact .write userBuf
      | returned ret => simp [simpleSpinStep, simpleSpinWrite] at h
  | other => simp [simpleSpinStep] at h

end EmbeddedSystem.Labs.SimpleSpin
