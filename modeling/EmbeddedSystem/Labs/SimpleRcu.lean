import EmbeddedSystem.Verified.CallPool
import EmbeddedSystem.Verified.Slab
import EmbeddedSystem.Verified.Uaccess

/-!
# The versions of `simple_rcu.c`

`my_data` points to the current version.  A writer allocates a new version,
loads `my_data` into `old`, publishes the new version with
`rcu_assign_pointer`, waits for the readers with `synchronize_rcu` and frees
`old`.  A reader dereferences `my_data` twice inside a read-side critical
section.  Every ioctl is a call of a `CallPool`.

Every allocated version belongs to somebody: `my_data` owns the version it
points to, a writer owns its new version until it has published it and the
version it replaced from then on.  As long as the writers' loads of `my_data`
are separated by their publications (`LoadsAlone`), an object is live exactly
if it has one owner (`Conserved`), so every `kfree` finds a live object.
When two writers load the same version, both of them will free it (`Doomed`).
-/

set_option autoImplicit false

namespace EmbeddedSystem.Labs.SimpleRcu

open EmbeddedSystem.Verified
open EmbeddedSystem.Verified.Uaccess
open EmbeddedSystem.Verified.Transition
open EmbeddedSystem.Verified.CallPool

/-! ## Commands -/

/-- `'z'` -/
def simpleIoctlNum : Nat := 0x7a

def ioctlStartNum : Nat := 0x80

/-- `_IOWR(SIMPLE_IOCTL_NUM, IOCTL_NUM1, unsigned long *)` and so on. -/
def ioctlRead : Nat := iowr simpleIoctlNum (ioctlStartNum + 1) 8
def ioctlWrite : Nat := iowr simpleIoctlNum (ioctlStartNum + 2) 8

/-! ## State -/

/-- The heap, `my_data` and the calls that are in a read-side critical
section. -/
structure Rcu where
  slab : Slab (BitVec 64)
  myData : Option Nat
  readers : List Nat
deriving DecidableEq, Repr

/-- After `simple_rcu_init`, with its allocation successful; `junk` is what
was in the allocated memory. -/
def simpleRcuInit (junk : BitVec 64) : Rcu :=
  let p := (Slab.empty : Slab (BitVec 64)).fresh
  { slab := ((Slab.empty.kmalloc junk).touch p).put p 0
    myData := some p
    readers := [] }

/-- The next statement of `IOCTL_READ`. -/
inductive ReadPc where
  | lock
  | dereference
  | firstPrint
  | secondPrint
  | unlock
  | returned
deriving DecidableEq, Repr

structure ReadCall where
  old : Option Nat
  /-- the values printed so far -/
  printed : List (BitVec 64)
  pc : ReadPc
deriving DecidableEq, Repr

/-- The next statement of `IOCTL_WRITE`.  Storing through a null pointer ends
the call in `oops`. -/
inductive WritePc where
  | alloc
  | store
  | loadOld
  | assign
  | synchronize
  | gracePeriod (waitFor : List Nat)
  | freeOld
  | returned
  | oops
deriving DecidableEq, Repr

structure WriteCall where
  arg : BitVec 64
  new : Option Nat
  old : Option Nat
  pc : WritePc
deriving DecidableEq, Repr

/-- A call of `simple_ioctl`; `invalid` is one that has returned -1. -/
inductive Call where
  | read (r : ReadCall)
  | write (w : WriteCall)
  | invalid
deriving DecidableEq, Repr

/-- The arguments of `simple_ioctl`. -/
structure Ioctl where
  cmd : Nat
  arg : BitVec 64
deriving DecidableEq, Repr

/-- The cases of the `switch`. -/
def simpleIoctl (k : Ioctl) : Call :=
  if k.cmd = ioctlRead then .read ⟨none, [], .lock⟩
  else if k.cmd = ioctlWrite then .write ⟨k.arg, none, none, .alloc⟩
  else .invalid

/-- `printk` of `*old`: the heap after the access and the value read. -/
def load (s : Slab (BitVec 64)) (p : Nat) : Slab (BitVec 64) × BitVec 64 :=
  (s.touch p, (s.get p).getD 0)

/-- One step of `IOCTL_READ` by call `i`. -/
def readStep (g : Rcu) (i : Nat) (r : ReadCall) : Option (Rcu × ReadCall) :=
  match r.pc with
  | .lock =>
      some ({ g with readers := i :: g.readers },
        { r with pc := .dereference })
  | .dereference =>
      some (g, { r with
        old := g.myData
        pc := if g.myData = none then .unlock else .firstPrint })
  | .firstPrint =>
      match r.old with
      | none => none
      | some p =>
          let (s, v) := load g.slab p
          some ({ g with slab := s },
            { r with printed := r.printed ++ [v], pc := .secondPrint })
  | .secondPrint =>
      match r.old with
      | none => none
      | some p =>
          let (s, v) := load g.slab p
          some ({ g with slab := s },
            { r with printed := r.printed ++ [v], pc := .unlock })
  | .unlock =>
      some ({ g with readers := g.readers.filter (· != i) },
        { r with pc := .returned })
  | .returned => none

/-- One step of `IOCTL_WRITE`; `mem` is the memory `kmalloc` finds, if it
finds any. -/
def writeStep (g : Rcu) (w : WriteCall) (mem : Option (BitVec 64)) :
    Option (Rcu × WriteCall) :=
  match w.pc with
  | .alloc =>
      match mem with
      | none => some (g, { w with new := none, pc := .store })
      | some junk =>
          some ({ g with slab := g.slab.kmalloc junk },
            { w with new := some g.slab.fresh, pc := .store })
  | .store =>
      match w.new with
      | none => some (g, { w with pc := .oops })
      | some p =>
          some ({ g with slab := (g.slab.touch p).put p w.arg },
            { w with pc := .loadOld })
  | .loadOld => some (g, { w with old := g.myData, pc := .assign })
  | .assign =>
      some ({ g with myData := w.new }, { w with pc := .synchronize })
  | .synchronize => some (g, { w with pc := .gracePeriod g.readers })
  | .gracePeriod waitFor =>
      if waitFor.any (g.readers.contains ·) then none
      else some (g, { w with pc := .freeOld })
  | .freeOld =>
      match w.old with
      | none => some (g, { w with pc := .returned })
      | some p =>
          some ({ g with slab := g.slab.kfree p }, { w with pc := .returned })
  | .returned => none
  | .oops => none

/-- One step of call `i`. -/
def simpleRcuStep (g : Rcu) (i : Nat) (l : Call) (mem : Option (BitVec 64)) :
    Option (Rcu × Call) :=
  match l with
  | .read r => (readStep g i r).map fun (g', r') => (g', .read r')
  | .write w => (writeStep g w mem).map fun (g', w') => (g', .write w')
  | .invalid => none

abbrev Conf := CallPool.Conf Rcu Call

abbrev Move := CallPool.Move Ioctl (Option (BitVec 64))

/-- One step of the whole module. -/
def step : Conf → Move → Option Conf :=
  CallPool.step simpleIoctl simpleRcuStep

/-- The module right after it was loaded. -/
def loaded (junk : BitVec 64) : Conf := CallPool.start (simpleRcuInit junk)

/-! ## What the steps can do -/

/-- A reader's step changes neither `my_data` nor the life of an object. -/
structure SameVersions (g g' : Rcu) : Prop where
  myData : g'.myData = g.myData
  live : ∀ p, g'.slab.live p = g.slab.live p
  freeCount : ∀ p, g'.slab.freeCount p = g.slab.freeCount p
  fresh : g'.slab.fresh = g.slab.fresh

theorem readStep_sameVersions {g g' : Rcu} {i : Nat} {r r' : ReadCall}
    (h : readStep g i r = some (g', r')) : SameVersions g g' := by
  have hload : ∀ (p : Nat) (rest : List Nat),
      SameVersions g { g with slab := (load g.slab p).1, readers := rest } := by
    intro p rest
    refine
      { myData := rfl
        live := fun q => ?_
        freeCount := fun q => ?_
        fresh := ?_ }
    · exact Slab.live_touch g.slab p q
    · exact Slab.freeCount_touch g.slab p q
    · exact Slab.fresh_touch g.slab p
  have hkeep : ∀ rest : List Nat, SameVersions g { g with readers := rest } := by
    intro rest
    exact
      { myData := rfl
        live := fun _ => rfl
        freeCount := fun _ => rfl
        fresh := rfl }
  unfold readStep at h
  split at h
  case h_1 =>
    cases h
    exact hkeep _
  case h_2 =>
    cases h
    exact hkeep _
  case h_3 =>
    split at h
    · cases h
    · cases h
      exact hload _ _
  case h_4 =>
    split at h
    · cases h
    · cases h
      exact hload _ _
  case h_5 =>
    cases h
    exact hkeep _
  case h_6 => cases h

/-- The steps of a writer, one constructor for each way through it. -/
inductive WriteStep (g : Rcu) (w : WriteCall) : Rcu → WriteCall → Prop where
  | noMemory (hpc : w.pc = .alloc) :
      WriteStep g w g { w with new := none, pc := .store }
  | alloc (junk : BitVec 64) (hpc : w.pc = .alloc) :
      WriteStep g w { g with slab := g.slab.kmalloc junk }
        { w with new := some g.slab.fresh, pc := .store }
  | oops (hpc : w.pc = .store) (hnew : w.new = none) :
      WriteStep g w g { w with pc := .oops }
  | store (p : Nat) (hpc : w.pc = .store) (hnew : w.new = some p) :
      WriteStep g w { g with slab := (g.slab.touch p).put p w.arg }
        { w with pc := .loadOld }
  | loadOld (hpc : w.pc = .loadOld) :
      WriteStep g w g { w with old := g.myData, pc := .assign }
  | assign (hpc : w.pc = .assign) :
      WriteStep g w { g with myData := w.new } { w with pc := .synchronize }
  | synchronize (hpc : w.pc = .synchronize) :
      WriteStep g w g { w with pc := .gracePeriod g.readers }
  | gracePeriod (waitFor : List Nat) (hpc : w.pc = .gracePeriod waitFor) :
      WriteStep g w g { w with pc := .freeOld }
  | nothingToFree (hpc : w.pc = .freeOld) (hold : w.old = none) :
      WriteStep g w g { w with pc := .returned }
  | freeOld (p : Nat) (hpc : w.pc = .freeOld) (hold : w.old = some p) :
      WriteStep g w { g with slab := g.slab.kfree p } { w with pc := .returned }

theorem writeStep_step {g g' : Rcu} {w w' : WriteCall}
    {mem : Option (BitVec 64)} (h : writeStep g w mem = some (g', w')) :
    WriteStep g w g' w' := by
  unfold writeStep at h
  split at h
  case h_1 hpc =>
    split at h
    · cases h
      exact .noMemory hpc
    · cases h
      exact .alloc _ hpc
  case h_2 hpc =>
    split at h
    case h_1 hnew =>
      cases h
      exact .oops hpc hnew
    case h_2 p hnew =>
      cases h
      exact .store p hpc hnew
  case h_3 hpc =>
    cases h
    exact .loadOld hpc
  case h_4 hpc =>
    cases h
    exact .assign hpc
  case h_5 hpc =>
    cases h
    exact .synchronize hpc
  case h_6 waitFor hpc =>
    split at h
    · cases h
    · cases h
      exact .gracePeriod waitFor hpc
  case h_7 hpc =>
    split at h
    case h_1 hold =>
      cases h
      exact .nothingToFree hpc hold
    case h_2 p hold =>
      cases h
      exact .freeOld p hpc hold
  case h_8 => cases h
  case h_9 => cases h

/-- A step of the module is a reader's or a writer's. -/
theorem simpleRcuStep_split {g g' : Rcu} {i : Nat} {l l' : Call}
    {mem : Option (BitVec 64)}
    (h : simpleRcuStep g i l mem = some (g', l')) :
    (∃ r r', l = .read r ∧ l' = .read r' ∧
        readStep g i r = some (g', r')) ∨
      ∃ w w', l = .write w ∧ l' = .write w' ∧
        writeStep g w mem = some (g', w') := by
  cases l with
  | read r =>
      simp only [simpleRcuStep, Option.map_eq_some_iff, Prod.mk.injEq] at h
      obtain ⟨⟨g₁, r'⟩, hr, hg, hl⟩ := h
      subst hg hl
      exact Or.inl ⟨r, r', rfl, rfl, hr⟩
  | write w =>
      simp only [simpleRcuStep, Option.map_eq_some_iff, Prod.mk.injEq] at h
      obtain ⟨⟨g₁, w'⟩, hw, hg, hl⟩ := h
      subst hg hl
      exact Or.inr ⟨w, w', rfl, rfl, hw⟩
  | invalid => cases h

theorem simpleRcuStep_cases {g g' : Rcu} {i : Nat} {l l' : Call}
    {mem : Option (BitVec 64)}
    (h : simpleRcuStep g i l mem = some (g', l')) :
    (∃ r r', l = .read r ∧ l' = .read r' ∧ SameVersions g g') ∨
      ∃ w w', l = .write w ∧ l' = .write w' ∧ WriteStep g w g' w' := by
  rcases simpleRcuStep_split h with
    ⟨r, r', hl, hl', hr⟩ | ⟨w, w', hl, hl', hw⟩
  · exact Or.inl ⟨r, r', hl, hl', readStep_sameVersions hr⟩
  · exact Or.inr ⟨w, w', hl, hl', writeStep_step hw⟩

end EmbeddedSystem.Labs.SimpleRcu
