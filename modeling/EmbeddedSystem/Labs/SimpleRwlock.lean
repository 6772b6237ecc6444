import EmbeddedSystem.Verified.RwLock
import EmbeddedSystem.Verified.SectionLog
import EmbeddedSystem.Verified.Slab
import EmbeddedSystem.Verified.Uaccess

/-!
# The version of `simple_rwlock.c`

`my_data` points to one object.  A writer replaces and frees it under the
write lock, a reader prints it twice under the read lock, and
`simple_rwlock_exit` frees it under the write lock when the module goes.  The
ioctls and the locked part of `simple_rwlock_exit` are calls of a `CallPool`;
`sections` lists the calls in the order in which they got the lock, and no
code reads it.

What the object is worth can be told from `sections` alone (`current`): the
argument of the last writer, 0 before the first one, and nothing after
`simple_rwlock_exit`.
-/

set_option autoImplicit false

namespace EmbeddedSystem.Labs.SimpleRwlock

open EmbeddedSystem.Verified
open EmbeddedSystem.Verified.Uaccess
open EmbeddedSystem.Verified.Transition
open EmbeddedSystem.Verified.CallPool
open EmbeddedSystem.Verified.SectionLog
open EmbeddedSystem.Verified.RwLock (Held Use)

/-! ## Commands -/

/-- `'z'` -/
def simpleIoctlNum : Nat := 0x7a

def ioctlStartNum : Nat := 0x80

/-- `_IOWR(SIMPLE_IOCTL_NUM, IOCTL_NUM1, unsigned long *)` and so on. -/
def ioctlRead : Nat := iowr simpleIoctlNum (ioctlStartNum + 1) 8
def ioctlWrite : Nat := iowr simpleIoctlNum (ioctlStartNum + 2) 8

/-! ## State -/

/-- A locked section of call `who`. -/
inductive Section where
  | read (who : Nat)
  | write (who : Nat) (arg : BitVec 64)
  | exit (who : Nat)
deriving DecidableEq, Repr

def Section.who : Section → Nat
  | .read who => who
  | .write who _ => who
  | .exit who => who

/-- The heap, `my_data` and `my_lock`. -/
structure Rw where
  slab : Slab (BitVec 64)
  myData : Option Nat
  myLock : RwLock
  sections : List Section
deriving DecidableEq, Repr

/-- After `simple_rwlock_init`, with its allocation successful; `junk` is what
was in the allocated memory. -/
def simpleRwlockInit (junk : BitVec 64) : Rw :=
  let p := (Slab.empty : Slab (BitVec 64)).fresh
  { slab := ((Slab.empty.kmalloc junk).touch p).put p 0
    myData := some p
    myLock := RwLock.free
    sections := [] }

/-- The next statement of `IOCTL_READ`. -/
inductive ReadPc where
  | lock
  | test
  | load
  | firstPrint
  | secondPrint
  | unlock
  | returned
deriving DecidableEq, Repr

structure ReadCall where
  old : Option Nat
  /-- the values printed so far -/
  printed : List (BitVec 64)
  pc : ReadPc
deriving DecidableEq, Repr

/-- The next statement of `IOCTL_WRITE`.  Storing through a null pointer ends
the call in `oops`, with the lock held. -/
inductive WritePc where
  | lock
  | alloc
  | store
  | loadOld
  | assign
  | freeOld
  | unlock
  | returned
  | oops
deriving DecidableEq, Repr

structure WriteCall where
  arg : BitVec 64
  new : Option Nat
  old : Option Nat
  pc : WritePc
deriving DecidableEq, Repr

/-- The next statement of `simple_rwlock_exit`, from its `write_lock` on. -/
inductive ExitPc where
  | lock
  | test
  | free
  | clear
  | unlock
  | returned
deriving DecidableEq, Repr

/-- A call of `simple_ioctl`, or the module's exit; `invalid` is an ioctl that
has returned -1. -/
inductive Call where
  | read (r : ReadCall)
  | write (w : WriteCall)
  | exit (pc : ExitPc)
  | invalid
deriving DecidableEq, Repr

inductive Request where
  | ioctl (cmd : Nat) (arg : BitVec 64)
  | exit
deriving DecidableEq, Repr

/-- The cases of the `switch`. -/
def enter : Request → Call
  | .ioctl cmd arg =>
      if cmd = ioctlRead then .read ⟨none, [], .lock⟩
      else if cmd = ioctlWrite then .write ⟨arg, none, none, .lock⟩
      else .invalid
  | .exit => .exit .lock

/-- One step of `IOCTL_READ` by call `i`.  Every `printk` loads `*old`. -/
def readStep (g : Rw) (i : Nat) (r : ReadCall) : Option (Rw × ReadCall) :=
  match r.pc with
  | .lock =>
      match g.myLock.readLock with
      | none => none
      | some k =>
          some ({ g with myLock := k, sections := g.sections ++ [.read i] },
            { r with pc := .test })
  | .test =>
      some (g, { r with pc := if g.myData = none then .unlock else .load })
  | .load => some (g, { r with old := g.myData, pc := .firstPrint })
  | .firstPrint =>
      match r.old with
      | none => none
      | some p =>
          some ({ g with slab := g.slab.touch p },
            { r with
              printed := r.printed ++ [(g.slab.get p).getD 0]
              pc := .secondPrint })
  | .secondPrint =>
      match r.old with
      | none => none
      | some p =>
          some ({ g with slab := g.slab.touch p },
            { r with
              printed := r.printed ++ [(g.slab.get p).getD 0]
              pc := .unlock })
  | .unlock =>
      some ({ g with myLock := g.myLock.readUnlock },
        { r with pc := .returned })
  | .returned => none

/-- One step of `IOCTL_WRITE` by call `i`; `mem` is the memory `kmalloc`
finds, if it finds any. -/
def writeStep (g : Rw) (i : Nat) (w : WriteCall) (mem : Option (BitVec 64)) :
    Option (Rw × WriteCall) :=
  match w.pc with
  | .lock =>
      match g.myLock.writeLock with
      | none => none
      | some k =>
          some ({ g with
              myLock := k
              sections := g.sections ++ [.write i w.arg] },
            { w with pc := .alloc })
  | .alloc =>
      match mem with
      | none => some (g, { w with new := none, pc := .store })
      | some junk =>
          some ({ g with slab := g.slab.kmalloc junk },
            { w with new := some g.slab.fresh, pc := .store })
  | .store =>
      match w.new with
      | none => some (g, { w with pc := .oops })
      | some p =>
          some ({ g with slab := (g.slab.touch p).put p w.arg },
            { w with pc := .loadOld })
  | .loadOld => some (g, { w with old := g.myData, pc := .assign })
  | .assign => some ({ g with myData := w.new }, { w with pc := .freeOld })
  | .freeOld =>
      match w.old with
      | none => some (g, { w with pc := .unlock })
      | some p =>
          some ({ g with slab := g.slab.kfree p }, { w with pc := .unlock })
  | .unlock =>
      some ({ g with myLock := g.myLock.writeUnlock },
        { w with pc := .returned })
  | .returned => none
  | .oops => none

/-- One step of `simple_rwlock_exit`. -/
def exitStep (g : Rw) (i : Nat) : ExitPc → Option (Rw × ExitPc)
  | .lock =>
      match g.myLock.writeLock with
      | none => none
      | some k =>
          some ({ g with myLock := k, sections := g.sections ++ [.exit i] },
            .test)
  | .test => some (g, if g.myData = none then .unlock else .free)
  | .free =>
      match g.myData with
      | none => none
      | some p => some ({ g with slab := g.slab.kfree p }, .clear)
  | .clear => some ({ g with myData := none }, .unlock)
  | .unlock => some ({ g with myLock := g.myLock.writeUnlock }, .returned)
  | .returned => none

/-- One step of call `i`. -/
def simpleRwlockStep (g : Rw) (i : Nat) (l : Call)
    (mem : Option (BitVec 64)) : Option (Rw × Call) :=
  match l with
  | .read r => (readStep g i r).map fun x => (x.1, .read x.2)
  | .write w => (writeStep g i w mem).map fun x => (x.1, .write x.2)
  | .exit pc => (exitStep g i pc).map fun x => (x.1, .exit x.2)
  | .invalid => none

abbrev Conf := CallPool.Conf Rw Call

abbrev Move := CallPool.Move Request (Option (BitVec 64))

def step : Conf → Move → Option Conf := CallPool.step enter simpleRwlockStep

/-- The module right after it was loaded. -/
def loaded (junk : BitVec 64) : Conf :=
  CallPool.start (simpleRwlockInit junk)

/-! ## What the steps can do -/

inductive ReadStep (g : Rw) (i : Nat) (r : ReadCall) : Rw → ReadCall → Prop where
  | lock (hpc : r.pc = .lock) (hw : g.myLock.writer = false) :
      ReadStep g i r
        { g with
          myLock := { g.myLock with readers := g.myLock.readers + 1 }
          sections := g.sections ++ [.read i] }
        { r with pc := .test }
  | foundNull (hpc : r.pc = .test) (hnull : g.myData = none) :
      ReadStep g i r g { r with pc := .unlock }
  | found (hpc : r.pc = .test) (hdata : g.myData ≠ none) :
      ReadStep g i r g { r with pc := .load }
  | load (hpc : r.pc = .load) :
      ReadStep g i r g { r with old := g.myData, pc := .firstPrint }
  | firstPrint (p : Nat) (hpc : r.pc = .firstPrint) (hold : r.old = some p) :
      ReadStep g i r { g with slab := g.slab.touch p }
        { r with
          printed := r.printed ++ [(g.slab.get p).getD 0]
          pc := .secondPrint }
  | secondPrint (p : Nat) (hpc : r.pc = .secondPrint)
      (hold : r.old = some p) :
      ReadStep g i r { g with slab := g.slab.touch p }
        { r with
          printed := r.printed ++ [(g.slab.get p).getD 0]
          pc := .unlock }
  | unlock (hpc : r.pc = .unlock) :
      ReadStep g i r { g with myLock := g.myLock.readUnlock }
        { r with pc := .returned }

theorem readStep_cases {g g' : Rw} {i : Nat} {r r' : ReadCall}
    (h : readStep g i r = some (g', r')) : ReadStep g i r g' r' := by
  unfold readStep at h
  split at h
  case h_1 hpc =>
    split at h
    case h_1 => cases h
    case h_2 k hk =>
      obtain ⟨hw, rfl⟩ := RwLock.readLock_some hk
      cases h
      exact .lock hpc hw
  case h_2 hpc =>
    by_cases hnull : g.myData = none
    · rw [if_pos hnull] at h
      cases h
      exact .foundNull hpc hnull
    · rw [if_neg hnull] at h
      cases h
      exact .found hpc hnull
  case h_3 hpc =>
    cases h
    exact .load hpc
  case h_4 hpc =>
    split at h
    case h_1 => cases h
    case h_2 p hold =>
      cases h
      exact .firstPrint p hpc hold
  case h_5 hpc =>
    split at h
    case h_1 => cases h
    case h_2 p hold =>
      cases h
      exact .secondPrint p hpc hold
  case h_6 hpc =>
    cases h
    exact .unlock hpc
  case h_7 => cases h

inductive WriteStep (g : Rw) (i : Nat) (w : WriteCall) :
    Rw → WriteCall → Prop where
  | lock (hpc : w.pc = .lock) (hw : g.myLock.writer = false)
      (hr : g.myLock.readers = 0) :
      WriteStep g i w
        { g with
          myLock := { g.myLock with writer := true }
          sections := g.sections ++ [.write i w.arg] }
        { w with pc := .alloc }
  | noMemory (hpc : w.pc = .alloc) :
      WriteStep g i w g { w with new := none, pc := .store }
  | alloc (junk : BitVec 64) (hpc : w.pc = .alloc) :
      WriteStep g i w { g with slab := g.slab.kmalloc junk }
        { w with new := some g.slab.fresh, pc := .store }
  | oops (hpc : w.pc = .store) (hnew : w.new = none) :
      WriteStep g i w g { w with pc := .oops }
  | store (p : Nat) (hpc : w.pc = .store) (hnew : w.new = some p) :
      WriteStep g i w { g with slab := (g.slab.touch p).put p w.arg }
        { w with pc := .loadOld }
  | loadOld (hpc : w.pc = .loadOld) :
      WriteStep g i w g { w with old := g.myData, pc := .assign }
  | assign (hpc : w.pc = .assign) :
      WriteStep g i w { g with myData := w.new } { w with pc := .freeOld }
  | nothingToFree (hpc : w.pc = .freeOld) (hold : w.old = none) :
      WriteStep g i w g { w with pc := .unlock }
  | freeOld (p : Nat) (hpc : w.pc = .freeOld) (hold : w.old = some p) :
      WriteStep g i w { g with slab := g.slab.kfree p }
        { w with pc := .unlock }
  | unlock (hpc : w.pc = .unlock) :
      WriteStep g i w { g with myLock := g.myLock.writeUnlock }
        { w with pc := .returned }

theorem writeStep_cases {g g' : Rw} {i : Nat} {w w' : WriteCall}
    {mem : Option (BitVec 64)} (h : writeStep g i w mem = some (g', w')) :
    WriteStep g i w g' w' := by
  unfold writeStep at h
  split at h
  case h_1 hpc =>
    split at h
    case h_1 => cases h
    case h_2 k hk =>
      obtain ⟨hw, hr, rfl⟩ := RwLock.writeLock_some hk
      cases h
      exact .lock hpc hw hr
  case h_2 hpc =>
    split at h
    · cases h
      exact .noMemory hpc
    · cases h
      exact .alloc _ hpc
  case h_3 hpc =>
    split at h
    case h_1 hnew =>
      cases h
      exact .oops hpc hnew
    case h_2 p hnew =>
      cases h
      exact .store p hpc hnew
  case h_4 hpc =>
    cases h
    exact .loadOld hpc
  case h_5 hpc =>
    cases h
    exact .assign hpc
  case h_6 hpc =>
    split at h
    case h_1 hold =>
      cases h
      exact .nothingToFree hpc hold
    case h_2 p hold =>
      cases h
      exact .freeOld p hpc hold
  case h_7 hpc =>
    cases h
    exact .unlock hpc
  case h_8 => cases h
  case h_9 => cases h

inductive ExitStep (g : Rw) (i : Nat) : ExitPc → Rw → ExitPc → Prop where
  | lock (hw : g.myLock.writer = false) (hr : g.myLock.readers = 0) :
      ExitStep g i .lock
        { g with
          myLock := { g.myLock with writer := true }
          sections := g.sections ++ [.exit i] } .test
  | foundNull (hnull : g.myData = none) : ExitStep g i .test g .unlock
  | found (hdata : g.myData ≠ none) : ExitStep g i .test g .free
  | free (p : Nat) (hdata : g.myData = some p) :
      ExitStep g i .free { g with slab := g.slab.kfree p } .clear
  | clear : ExitStep g i .clear { g with myData := none } .unlock
  | unlock :
      ExitStep g i .unlock { g with myLock := g.myLock.writeUnlock } .returned

theorem exitStep_cases {g g' : Rw} {i : Nat} {pc pc' : ExitPc}
    (h : exitStep g i pc = some (g', pc')) : ExitStep g i pc g' pc' := by
  cases pc with
  | lock =>
      simp only [exitStep] at h
      split at h
      case h_1 => cases h
      case h_2 k hk =>
        obtain ⟨hw, hr, rfl⟩ := RwLock.writeLock_some hk
        cases h
        exact .lock hw hr
  | test =>
      simp only [exitStep] at h
      by_cases hnull : g.myData = none
      · rw [if_pos hnull] at h
        cases h
        exact .foundNull hnull
      · rw [if_neg hnull] at h
        cases h
        exact .found hnull
  | free =>
      simp only [exitStep] at h
      split at h
      case h_1 => cases h
      case h_2 p hdata =>
        cases h
        exact .free p hdata
  | clear =>
      cases h
      exact .clear
  | unlock =>
      cases h
      exact .unlock
  | returned => cases h

theorem simpleRwlockStep_cases {g g' : Rw} {i : Nat} {l l' : Call}
    {mem : Option (BitVec 64)}
    (h : simpleRwlockStep g i l mem = some (g', l')) :
    (∃ r r', l = .read r ∧ l' = .read r' ∧ ReadStep g i r g' r') ∨
      (∃ w w', l = .write w ∧ l' = .write w' ∧ WriteStep g i w g' w') ∨
      ∃ pc pc', l = .exit pc ∧ l' = .exit pc' ∧ ExitStep g i pc g' pc' := by
  cases l with
  | read r =>
      obtain ⟨⟨_, r'⟩, hr, heq⟩ := Option.map_eq_some_iff.mp h
      cases heq
      exact Or.inl ⟨r, r', rfl, rfl, readStep_cases hr⟩
  | write w =>
      obtain ⟨⟨_, w'⟩, hw, heq⟩ := Option.map_eq_some_iff.mp h
      cases heq
      exact Or.inr (Or.inl ⟨w, w', rfl, rfl, writeStep_cases hw⟩)
  | exit pc =>
      obtain ⟨⟨_, pc'⟩, hpc, heq⟩ := Option.map_eq_some_iff.mp h
      cases heq
      exact Or.inr (Or.inr ⟨pc, pc', rfl, rfl, exitStep_cases hpc⟩)
  | invalid => cases h

end EmbeddedSystem.Labs.SimpleRwlock
