import EmbeddedSystem.Verified.CallPool

/-!
# Read/write locks

A `rwlock_t` is held by any number of readers or by one writer.  The lock
itself only counts; which calls hold it is said by two tests on their local
states, `reading` and `writing`.  `Held` is the agreement between the lock and
the calls that every use of the lock keeps (`Held.step`), and what it is good
for is that nobody is beside a writer (`Held.sole`).
-/

set_option autoImplicit false

namespace EmbeddedSystem.Verified

open EmbeddedSystem.Verified.CallPool

/-- The number of readers that hold the lock, and whether a writer does. -/
structure RwLock where
  readers : Nat
  writer : Bool
deriving DecidableEq, Repr

namespace RwLock

/-- `rwlock_init` -/
def free : RwLock := ⟨0, false⟩

/-- `read_lock`; `none` while a writer holds the lock. -/
def readLock (k : RwLock) : Option RwLock :=
  if k.writer then none else some { k with readers := k.readers + 1 }

/-- `read_unlock` -/
def readUnlock (k : RwLock) : RwLock := { k with readers := k.readers - 1 }

/-- `write_lock`; `none` while anybody holds the lock. -/
def writeLock (k : RwLock) : Option RwLock :=
  if k.writer || k.readers != 0 then none else some { k with writer := true }

/-- `write_unlock` -/
def writeUnlock (k : RwLock) : RwLock := { k with writer := false }

theorem readLock_some {k k' : RwLock} (h : k.readLock = some k') :
    k.writer = false ∧ k' = { k with readers := k.readers + 1 } := by
  unfold readLock at h
  split at h
  · cases h
  case isFalse hw =>
    cases h
    exact ⟨Bool.eq_false_iff.mpr hw, rfl⟩

theorem writeLock_some {k k' : RwLock} (h : k.writeLock = some k') :
    k.writer = false ∧ k.readers = 0 ∧ k' = { k with writer := true } := by
  unfold writeLock at h
  split at h
  · cases h
  case isFalse hw =>
    cases h
    simp only [Bool.or_eq_true, bne_iff_ne, ne_eq, not_or, Bool.not_eq_true,
      Decidable.not_not] at hw
    exact ⟨hw.1, hw.2, rfl⟩

/-- What one step of a call may do with the lock: the lock, and whether the
call reads or writes under it, before and after. -/
inductive Use (k : RwLock) : Bool → Bool → RwLock → Bool → Bool → Prop where
  | keep (r w : Bool) : Use k r w k r w
  | readLock (hw : k.writer = false) :
      Use k false false { k with readers := k.readers + 1 } true false
  | readUnlock : Use k true false k.readUnlock false false
  | writeLock (hw : k.writer = false) (hr : k.readers = 0) :
      Use k false false { k with writer := true } false true
  | writeUnlock : Use k false true k.writeUnlock false false

section Held

variable {L : Type} {reading writing : L → Bool}

/-- The lock counts the calls that hold it, and a writer holds it alone. -/
structure Held (reading writing : L → Bool) (k : RwLock) (calls : List L) :
    Prop where
  readers : total (fun l => (reading l).toNat) calls = k.readers
  writer : total (fun l => (writing l).toNat) calls = k.writer.toNat
  exclusive : k.writer = true → k.readers = 0

theorem held_start : Held reading writing free ([] : List L) :=
  { readers := rfl
    writer := rfl
    exclusive := fun _ => rfl }

/-- A new call does not hold the lock. -/
theorem Held.issue {k : RwLock} {calls : List L}
    (h : Held reading writing k calls) {l : L} (hr : reading l = false)
    (hw : writing l = false) : Held reading writing k (calls ++ [l]) :=
  { readers := by rw [total_append_one, h.readers, hr]; rfl
    writer := by rw [total_append_one, h.writer, hw]; rfl
    exclusive := h.exclusive }

theorem Held.step {k k' : RwLock} {calls : List L}
    (h : Held reading writing k calls) {i : Nat} {l l' : L}
    (hl : calls[i]? = some l)
    (hu : Use k (reading l) (writing l) k' (reading l') (writing l')) :
    Held reading writing k' (calls.set i l') := by
  have hr := total_set (fun l => (reading l).toNat) l' hl
  have hw := total_set (fun l => (writing l).toNat) l' hl
  have hreaders := h.readers
  have hwriter := h.writer
  have hexcl := h.exclusive
  have hlr := le_total (fun l => (reading l).toNat) hl
  have hlw := le_total (fun l => (writing l).toNat) hl
  generalize reading l = r at hu hr hlr
  generalize writing l = w at hu hw hlw
  generalize reading l' = r' at hu hr
  generalize writing l' = w' at hu hw
  cases hu with
  | keep =>
      exact ⟨by omega, by omega, hexcl⟩
  | readLock hfree =>
      simp only [Bool.toNat_true, Bool.toNat_false] at hr hw
      refine ⟨?_, ?_, fun hk => ?_⟩
      · show _ = k.readers + 1
        omega
      · show _ = k.writer.toNat
        omega
      · rw [show k.writer = true from hk] at hfree
        cases hfree
  | readUnlock =>
      simp only [Bool.toNat_true, Bool.toNat_false] at hr hw hlr
      refine ⟨?_, ?_, fun hk => ?_⟩
      · show _ = k.readers - 1
        omega
      · show _ = k.writer.toNat
        omega
      · have hzero := hexcl hk
        show k.readers - 1 = 0
        omega
  | writeLock hfree hnone =>
      rw [hfree] at hwriter
      simp only [Bool.toNat_true, Bool.toNat_false] at hr hw hwriter
      refine ⟨?_, ?_, fun _ => hnone⟩
      · show _ = k.readers
        omega
      · show _ = 1
        omega
  | writeUnlock =>
      have hle := Bool.toNat_le k.writer
      simp only [Bool.toNat_true, Bool.toNat_false] at hr hw hlw
      refine ⟨?_, ?_, fun hk => by cases hk⟩
      · show _ = k.readers
        omega
      · show _ = 0
        omega

/-- The lock knows about its writer. -/
theorem Held.writer_of_writing {k : RwLock} {calls : List L}
    (h : Held reading writing k calls) {i : Nat} {l : L}
    (hl : calls[i]? = some l) (hw : writing l = true) : k.writer = true := by
  have hle := le_total (fun l => (writing l).toNat) hl
  have hwriter := h.writer
  rw [hw] at hle
  cases hk : k.writer with
  | true => rfl
  | false =>
      rw [hk] at hwriter
      simp only [Bool.toNat_true, Bool.toNat_false] at hle hwriter
      omega

/-- While somebody reads, nobody writes. -/
theorem Held.no_writer {k : RwLock} {calls : List L}
    (h : Held reading writing k calls) {i : Nat} {l : L}
    (hl : calls[i]? = some l) (hr : reading l = true) : k.writer = false := by
  have hle := le_total (fun l => (reading l).toNat) hl
  have hreaders := h.readers
  rw [hr] at hle
  cases hk : k.writer with
  | false => rfl
  | true =>
      have hzero := h.exclusive hk
      simp only [Bool.toNat_true] at hle
      omega

/-- Nobody is beside a writer. -/
theorem Held.sole {k : RwLock} {calls : List L}
    (h : Held reading writing k calls) {i j : Nat} {l m : L} (hij : i ≠ j)
    (hl : calls[i]? = some l) (hw : writing l = true)
    (hm : calls[j]? = some m) : reading m = false ∧ writing m = false := by
  have hk := h.writer_of_writing hl hw
  constructor
  · cases hr : reading m with
    | false => rfl
    | true =>
        rw [h.no_writer hm hr] at hk
        cases hk
  · have htwo := add_le_total (fun l => (writing l).toNat) hij hl hm
    have hwriter := h.writer
    have hle := Bool.toNat_le k.writer
    rw [hw] at htwo
    cases hwm : writing m with
    | false => rfl
    | true =>
        rw [hwm] at htwo
        simp only [Bool.toNat_true] at htwo
        omega

end Held

end RwLock

end EmbeddedSystem.Verified
