import EmbeddedSystem.Labs.SimpleRwlock

/-!
# What the readers of `simple_rwlock` print

Under the lock there is one version.  `Quiet` says so for the moments when no
writer holds the lock, and the assertions about the calls say how far the
holder of the write lock has got in replacing it: there are two live objects
from its `kmalloc` to its `kfree`, and `my_data` points to one of them.

A failed `kmalloc` needs no condition here.  Such a writer never gives the
lock back, and nobody gets it after that.
-/

set_option autoImplicit false

namespace EmbeddedSystem.Labs.SimpleRwlock

open EmbeddedSystem.Verified
open EmbeddedSystem.Verified.Transition
open EmbeddedSystem.Verified.CallPool
open EmbeddedSystem.Verified.SectionLog
open EmbeddedSystem.Verified.RwLock (Held Use held_start)
open EmbeddedSystem.Verified.Slab (OnlyLive onlyLive_empty)

/-! ## Who holds the lock -/

/-- The call holds the read lock. -/
def reading : Call → Bool
  | .read r =>
      match r.pc with
      | .lock => false
      | .returned => false
      | _ => true
  | _ => false

/-- The call holds the write lock. -/
def writing : Call → Bool
  | .write w =>
      match w.pc with
      | .lock => false
      | .returned => false
      | _ => true
  | .exit .lock => false
  | .exit .returned => false
  | .exit _ => true
  | _ => false

/-- The lock counts its holders. -/
def LockHeld (c : Conf) : Prop :=
  Held reading writing c.shared.myLock c.calls

theorem simpleRwlockStep_use {g g' : Rw} {i : Nat} {l l' : Call}
    {mem : Option (BitVec 64)}
    (h : simpleRwlockStep g i l mem = some (g', l')) :
    Use g.myLock (reading l) (writing l) g'.myLock (reading l')
      (writing l') := by
  rcases simpleRwlockStep_cases h with
    ⟨r, r', rfl, rfl, hread⟩ | ⟨w, w', rfl, rfl, hwrite⟩ |
      ⟨pc, pc', rfl, rfl, hexit⟩
  · obtain ⟨old, printed, pc⟩ := r
    cases hread with
    | lock hpc hw => cases hpc; exact .readLock hw
    | foundNull hpc => cases hpc; exact .keep _ _
    | found hpc => cases hpc; exact .keep _ _
    | load hpc => cases hpc; exact .keep _ _
    | firstPrint p hpc => cases hpc; exact .keep _ _
    | secondPrint p hpc => cases hpc; exact .keep _ _
    | unlock hpc => cases hpc; exact .readUnlock
  · obtain ⟨arg, new, old, pc⟩ := w
    cases hwrite with
    | lock hpc hw hr => cases hpc; exact .writeLock hw hr
    | noMemory hpc => cases hpc; exact .keep _ _
    | alloc junk hpc => cases hpc; exact .keep _ _
    | oops hpc => cases hpc; exact .keep _ _
    | store p hpc => cases hpc; exact .keep _ _
    | loadOld hpc => cases hpc; exact .keep _ _
    | assign hpc => cases hpc; exact .keep _ _
    | nothingToFree hpc => cases hpc; exact .keep _ _
    | freeOld p hpc => cases hpc; exact .keep _ _
    | unlock hpc => cases hpc; exact .writeUnlock
  · cases hexit with
    | lock hw hr => exact .writeLock hw hr
    | foundNull => exact .keep _ _
    | found => exact .keep _ _
    | free => exact .keep _ _
    | clear => exact .keep _ _
    | unlock => exact .writeUnlock

theorem enter_outside (k : Request) :
    reading (enter k) = false ∧ writing (enter k) = false := by
  cases k with
  | exit => exact ⟨rfl, rfl⟩
  | ioctl cmd arg =>
      unfold enter
      dsimp only
      split
      · exact ⟨rfl, rfl⟩
      · split <;> exact ⟨rfl, rfl⟩

theorem lockHeld_loaded (junk : BitVec 64) : LockHeld (loaded junk) :=
  held_start

theorem lockHeld_step (c : Conf) (mv : Move) (d : Conf) (h : LockHeld c)
    (hst : step c mv = some d) : LockHeld d := by
  rcases step_cases hst with
    ⟨k, -, hd⟩ | ⟨i, o, l, g, l', -, hl, hb, hd⟩
  · rw [hd]
    exact Held.issue h (enter_outside k).1 (enter_outside k).2
  · rw [hd]
    exact Held.step h hl (simpleRwlockStep_use hb)

/-! ## What a step does outside the write lock -/

/-- The steps of a call that does not hold the write lock. -/
inductive Outside (g : Rw) (i : Nat) (l : Call) : Rw → Prop where
  | same (k : RwLock) : Outside g i l { g with myLock := k }
  | print (p : Nat) (hl : reading l = true) :
      Outside g i l { g with slab := g.slab.touch p }
  | readLock (k : RwLock) (hw : g.myLock.writer = false) :
      Outside g i l
        { g with myLock := k, sections := g.sections ++ [.read i] }
  | writeLock (k : RwLock) (s : Section) (hs : s.who = i)
      (hw : g.myLock.writer = false) (hr : g.myLock.readers = 0) :
      Outside g i l { g with myLock := k, sections := g.sections ++ [s] }

theorem simpleRwlockStep_outside {g g' : Rw} {i : Nat} {l l' : Call}
    {mem : Option (BitVec 64)}
    (h : simpleRwlockStep g i l mem = some (g', l'))
    (hwr : writing l = false) : Outside g i l g' := by
  rcases simpleRwlockStep_cases h with
    ⟨r, r', rfl, rfl, hread⟩ | ⟨w, w', rfl, rfl, hwrite⟩ |
      ⟨pc, pc', rfl, rfl, hexit⟩
  · obtain ⟨old, printed, pc⟩ := r
    cases hread with
    | lock hpc hw => exact .readLock _ hw
    | foundNull hpc => exact .same g.myLock
    | found hpc => exact .same g.myLock
    | load hpc => exact .same g.myLock
    | firstPrint p hpc => cases hpc; exact .print p rfl
    | secondPrint p hpc => cases hpc; exact .print p rfl
    | unlock hpc => exact .same _
  · obtain ⟨arg, new, old, pc⟩ := w
    cases hwrite with
    | lock hpc hw hr => exact .writeLock _ _ rfl hw hr
    | noMemory hpc => cases hpc; cases hwr
    | alloc junk hpc => cases hpc; cases hwr
    | oops hpc => cases hpc; cases hwr
    | store p hpc => cases hpc; cases hwr
    | loadOld hpc => cases hpc; cases hwr
    | assign hpc => cases hpc; cases hwr
    | nothingToFree hpc => cases hpc; cases hwr
    | freeOld p hpc => cases hpc; cases hwr
    | unlock hpc => cases hpc; cases hwr
  · cases hexit with
    | lock hw hr => exact .writeLock _ _ rfl hw hr
    | _ => cases hwr

/-- The call's next statement is the `write_lock` of `IOCTL_WRITE`. -/
def Call.locksToWrite : Call → Bool
  | .write w => w.pc = .lock
  | _ => false

def Section.isWrite : Section → Bool
  | .write _ _ => true
  | _ => false

/-- A step enters at most a section of its own. -/
theorem simpleRwlockStep_sections {g g' : Rw} {i : Nat} {l l' : Call}
    {mem : Option (BitVec 64)}
    (h : simpleRwlockStep g i l mem = some (g', l')) :
    g'.sections = g.sections ∨
      ∃ s : Section, s.who = i ∧ g'.sections = g.sections ++ [s] ∧
        (s.isWrite = true → l.locksToWrite = true) := by
  rcases simpleRwlockStep_cases h with
    ⟨r, r', hr, -, hread⟩ | ⟨w, w', hw, -, hwrite⟩ | ⟨pc, pc', hpc, -, hexit⟩
  · cases hread with
    | lock => exact Or.inr ⟨.read i, rfl, rfl, fun hs => by cases hs⟩
    | _ => exact Or.inl rfl
  · cases hwrite with
    | lock hpc =>
        refine Or.inr ⟨.write i w.arg, rfl, rfl, fun _ => ?_⟩
        rw [hw]
        exact decide_eq_true hpc
    | _ => exact Or.inl rfl
  · cases hexit with
    | lock => exact Or.inr ⟨.exit i, rfl, rfl, fun hs => by cases hs⟩
    | _ => exact Or.inl rfl

/-! ## The current value -/

/-- What `my_data` is worth after one more section; `none` is NULL. -/
def Section.update (v : Option (BitVec 64)) : Section → Option (BitVec 64)
  | .read _ => v
  | .write _ arg => some arg
  | .exit _ => none

/-- What it is worth after all of them. -/
def current (sections : List Section) : Option (BitVec 64) :=
  sections.foldl Section.update (some 0)

theorem current_concat (sections : List Section) (s : Section) :
    current (sections ++ [s]) = s.update (current sections) := by
  rw [current, List.foldl_append]
  rfl

/-- The value of a live object, or NULL, and nothing else is live. -/
def Quiet (g : Rw) (v : Option (BitVec 64)) : Prop :=
  OnlyLive g.slab g.myData.toList ∧ g.myData.bind g.slab.get = v

/-- The two objects are different, and nothing else is live. -/
def Pair (s : Slab (BitVec 64)) (a b : Option Nat) : Prop :=
  OnlyLive s (a.toList ++ b.toList) ∧ (a.toList ++ b.toList).Nodup

theorem pair_none_left {s : Slab (BitVec 64)} {b : Option Nat}
    (h : OnlyLive s b.toList) : Pair s none b := by
  refine ⟨h, ?_⟩
  cases b <;> simp

/-! ## The invariant -/

/-- The shared part, when `n` calls were issued. -/
structure RwOk (n : Nat) (g : Rw) : Prop where
  sound : g.slab.Sound
  issued : ∀ s ∈ g.sections, s.who < n
  quiet : g.myLock.writer = false → Quiet g (current g.sections)

/-- A reader is in its section, and the value is what it was when it came. -/
def Seen (g : Rw) (i : Nat) : Prop :=
  ∃ before, Placed Section.who before (.read i) g.sections ∧
    current before = current g.sections

/-- The value twice, or nothing for NULL. -/
def twice : Option (BitVec 64) → List (BitVec 64)
  | none => []
  | some v => [v, v]

/-- The reader has printed twice what was current before its section. -/
def Answered (g : Rw) (i : Nat) (printed : List (BitVec 64)) : Prop :=
  ∃ before, Placed Section.who before (.read i) g.sections ∧
    printed = twice (current before)

def ReadOk (g : Rw) (i : Nat) (r : ReadCall) : Prop :=
  match r.pc with
  | .lock => Silent Section.who i g.sections ∧ r.printed = []
  | .test => Seen g i ∧ r.printed = []
  | .load => Seen g i ∧ r.printed = []
  | .firstPrint => Seen g i ∧ r.printed = [] ∧ r.old = g.myData
  | .secondPrint =>
      Seen g i ∧ (∃ v, current g.sections = some v ∧ r.printed = [v]) ∧
        r.old = g.myData
  | .unlock => Answered g i r.printed
  | .returned => Answered g i r.printed

def WriteOk (g : Rw) (i : Nat) (w : WriteCall) : Prop :=
  match w.pc with
  | .lock => Silent Section.who i g.sections
  | .alloc =>
      current g.sections = some w.arg ∧ OnlyLive g.slab g.myData.toList
  | .store => current g.sections = some w.arg ∧ Pair g.slab w.new g.myData
  | .loadOld =>
      current g.sections = some w.arg ∧ Pair g.slab w.new g.myData ∧
        w.new.bind g.slab.get = some w.arg
  | .assign =>
      current g.sections = some w.arg ∧ Pair g.slab w.new g.myData ∧
        w.new.bind g.slab.get = some w.arg ∧ w.old = g.myData
  | .freeOld =>
      current g.sections = some w.arg ∧ Pair g.slab w.old g.myData ∧
        g.myData.bind g.slab.get = some w.arg
  | .unlock => current g.sections = some w.arg ∧ Quiet g (some w.arg)
  | .returned => True
  | .oops => True

def ExitOk (g : Rw) (i : Nat) : ExitPc → Prop
  | .lock => Silent Section.who i g.sections
  | .test => current g.sections = none ∧ OnlyLive g.slab g.myData.toList
  | .free => current g.sections = none ∧ OnlyLive g.slab g.myData.toList
  | .clear => current g.sections = none ∧ OnlyLive g.slab []
  | .unlock => current g.sections = none ∧ Quiet g none
  | .returned => True

/-- What call `i` has done so far is what its next statement presupposes. -/
def CallOk (g : Rw) (i : Nat) : Call → Prop
  | .read r => ReadOk g i r
  | .write w => WriteOk g i w
  | .exit pc => ExitOk g i pc
  | .invalid => True

/-! ## A call's own step -/

/-- The pointer of a reader is good. -/
theorem Quiet.live {g : Rw} {v : Option (BitVec 64)} (h : Quiet g v) {p : Nat}
    (hp : g.myData = some p) :
    g.slab.live p = true ∧ ∃ x, v = some x ∧ g.slab.get p = some x := by
  have hlive : g.slab.live p = true :=
    (h.1 p).mpr (by rw [hp]; exact List.mem_singleton.mpr rfl)
  refine ⟨hlive, ?_⟩
  have hval := h.2
  rw [hp, Option.bind_some] at hval
  cases hget : g.slab.get p with
  | none =>
      have hge := (Slab.get_eq_none_iff g.slab p).mp hget
      have hlt := Slab.lt_fresh_of_live hlive
      omega
  | some x =>
      rw [hget] at hval
      exact ⟨x, hval.symm, rfl⟩

theorem RwOk.enter {n i : Nat} {g : Rw} (h : RwOk n g) (hi : i < n)
    {s : Section} (hs : s.who = i) : ∀ t ∈ g.sections ++ [s], t.who < n := by
  intro t ht
  rcases List.mem_append.mp ht with hold | hnew
  · exact h.issued t hold
  · rw [List.mem_singleton.mp hnew, hs]
    exact hi

theorem ReadStep.own {n i : Nat} {g g' : Rw} {r r' : ReadCall} (hi : i < n)
    (hfree : reading (.read r) = true → g.myLock.writer = false)
    (h : RwOk n g) (hok : ReadOk g i r) (hst : ReadStep g i r g' r') :
    RwOk n g' ∧ ReadOk g' i r' := by
  obtain ⟨old, printed, pc⟩ := r
  -- the pointer is live and its value is the current one
  have hload : ∀ p, g.myLock.writer = false → g.myData = some p →
      g.slab.touch p = g.slab ∧ ∃ v, current g.sections = some v ∧
        (g.slab.get p).getD 0 = v := by
    intro p hw hp
    obtain ⟨hlive, v, hcur, hget⟩ := (h.quiet hw).live hp
    exact ⟨Slab.touch_of_live hlive, v, hcur, by rw [hget]; rfl⟩
  cases hst with
  | lock hpc hw =>
      cases hpc
      obtain ⟨hsilent, hprinted⟩ := hok
      have hcur : current (g.sections ++ [.read i]) = current g.sections :=
        current_concat g.sections (.read i)
      refine ⟨⟨h.sound, h.enter hi rfl, fun _ => ?_⟩,
        ⟨g.sections, Silent.placed (s := Section.read i) hsilent,
          hcur.symm⟩, hprinted⟩
      show Quiet _ (current (g.sections ++ [.read i]))
      rw [hcur]
      exact h.quiet hw
  | foundNull hpc hnull =>
      cases hpc
      obtain ⟨⟨before, hplaced, hcur⟩, hprinted⟩ := hok
      have hnone : current g.sections = none := by
        rw [← (h.quiet (hfree rfl)).2, hnull]
        rfl
      refine ⟨h, before, hplaced, ?_⟩
      rw [hcur, hnone]
      exact hprinted
  | found hpc hdata =>
      cases hpc
      exact ⟨h, hok⟩
  | load hpc =>
      cases hpc
      exact ⟨h, hok.1, hok.2, rfl⟩
  | firstPrint p hpc hold =>
      cases hpc
      obtain ⟨hseen, hprinted, heq⟩ := hok
      have hold : old = some p := hold
      have heq : old = g.myData := heq
      have hprinted : printed = [] := hprinted
      obtain ⟨htouch, v, hcur, hval⟩ :=
        hload p (hfree rfl) (heq.symm.trans hold)
      rw [htouch]
      refine ⟨h, hseen, ⟨v, hcur, ?_⟩, heq⟩
      show printed ++ [(g.slab.get p).getD 0] = [v]
      rw [hprinted, hval]
      rfl
  | secondPrint p hpc hold =>
      cases hpc
      obtain ⟨⟨before, hplaced, hcurb⟩, ⟨v, hcur, hprinted⟩, heq⟩ := hok
      have hold : old = some p := hold
      have heq : old = g.myData := heq
      have hprinted : printed = [v] := hprinted
      obtain ⟨htouch, v', hcur', hval⟩ :=
        hload p (hfree rfl) (heq.symm.trans hold)
      rw [hcur, Option.some.injEq] at hcur'
      rw [htouch]
      refine ⟨h, before, hplaced, ?_⟩
      show printed ++ [(g.slab.get p).getD 0] = twice (current before)
      rw [hprinted, hval, hcurb, hcur, ← hcur']
      rfl
  | unlock hpc =>
      cases hpc
      exact ⟨⟨h.sound, h.issued, h.quiet⟩, hok⟩

/-- The shared part while a writer holds the lock: only the heap matters. -/
theorem RwOk.locked {n : Nat} {g : Rw} (h : RwOk n g)
    (hw : g.myLock.writer = true) {s : Slab (BitVec 64)} (hs : s.Sound)
    (data : Option Nat) : RwOk n { g with slab := s, myData := data } := by
  refine ⟨hs, h.issued, fun hfree => ?_⟩
  have hfree : g.myLock.writer = false := hfree
  rw [hw] at hfree
  cases hfree

/-- The shared part when a writer has just got the lock. -/
theorem RwOk.writeLock {n i : Nat} {g : Rw} (h : RwOk n g) (hi : i < n)
    {s : Section} (hs : s.who = i) :
    RwOk n
      { g with
        myLock := { g.myLock with writer := true }
        sections := g.sections ++ [s] } :=
  ⟨h.sound, h.enter hi hs, fun hfree => by cases hfree⟩

theorem WriteStep.own {n i : Nat} {g g' : Rw} {w w' : WriteCall} (hi : i < n)
    (hlocked : writing (.write w) = true → g.myLock.writer = true)
    (h : RwOk n g) (hok : WriteOk g i w) (hst : WriteStep g i w g' w') :
    RwOk n g' ∧ WriteOk g' i w' := by
  obtain ⟨arg, new, old, pc⟩ := w
  cases hst with
  | lock hpc hw hr =>
      cases hpc
      refine ⟨h.writeLock hi rfl, ?_, (h.quiet hw).1⟩
      exact current_concat g.sections (.write i arg)
  | noMemory hpc =>
      cases hpc
      exact ⟨h, hok.1, pair_none_left hok.2⟩
  | alloc junk hpc =>
      cases hpc
      obtain ⟨hcur, hlive⟩ := hok
      refine ⟨h.locked (hlocked rfl) (h.sound.kmalloc junk) g.myData, hcur,
        hlive.kmalloc junk, ?_⟩
      refine List.nodup_cons.mpr ⟨hlive.fresh_notMem, ?_⟩
      cases g.myData <;> simp
  | oops hpc hnew =>
      cases hpc
      exact ⟨h, trivial⟩
  | store p hpc hnew =>
      cases hpc
      have hnew : new = some p := hnew
      subst hnew
      obtain ⟨hcur, hlive, hnodup⟩ := hok
      have hp : g.slab.live p = true :=
        (hlive p).mpr (List.mem_append_left _ (List.mem_singleton.mpr rfl))
      rw [Slab.touch_of_live hp]
      refine ⟨h.locked (hlocked rfl) (h.sound.put p arg) g.myData, hcur,
        ⟨hlive.put p arg, hnodup⟩, ?_⟩
      show (g.slab.put p arg).get p = some arg
      rw [Slab.get_put, if_pos rfl]
      cases hget : g.slab.get p with
      | none =>
          have hge := (Slab.get_eq_none_iff g.slab p).mp hget
          have hlt := Slab.lt_fresh_of_live hp
          omega
      | some v => rfl
  | loadOld hpc =>
      cases hpc
      exact ⟨h, hok.1, hok.2.1, hok.2.2, rfl⟩
  | assign hpc =>
      cases hpc
      obtain ⟨hcur, ⟨hlive, hnodup⟩, hval, hold⟩ := hok
      have hold : old = g.myData := hold
      subst hold
      refine ⟨h.locked (hlocked rfl) h.sound new, hcur, ⟨fun q => ?_, ?_⟩,
        hval⟩
      · rw [hlive q, List.mem_append, List.mem_append]
        exact or_comm
      · exact (List.perm_append_comm.nodup_iff).mp hnodup
  | nothingToFree hpc hold =>
      cases hpc
      have hold : old = none := hold
      subst hold
      exact ⟨h, hok.1, hok.2.1.1, hok.2.2⟩
  | freeOld p hpc hold =>
      cases hpc
      have hold : old = some p := hold
      subst hold
      obtain ⟨hcur, ⟨hlive, hnodup⟩, hval⟩ := hok
      have hp : g.slab.live p = true :=
        (hlive p).mpr (List.mem_append_left _ (List.mem_singleton.mpr rfl))
      have hnot := (List.nodup_cons.mp hnodup).1
      refine ⟨h.locked (hlocked rfl) (h.sound.kfree hp) g.myData, hcur,
        OnlyLive.kfree hlive hnot, ?_⟩
      show g.myData.bind (g.slab.kfree p).get = some arg
      rw [← hval]
      cases g.myData with
      | none => rfl
      | some q => exact Slab.get_kfree g.slab p q
  | unlock hpc =>
      cases hpc
      obtain ⟨hcur, hquiet⟩ := hok
      refine ⟨⟨h.sound, h.issued, fun _ => ?_⟩, trivial⟩
      show Quiet _ (current g.sections)
      rw [hcur]
      exact hquiet

theorem ExitStep.own {n i : Nat} {g g' : Rw} {pc pc' : ExitPc} (hi : i < n)
    (hlocked : writing (.exit pc) = true → g.myLock.writer = true)
    (h : RwOk n g) (hok : ExitOk g i pc) (hst : ExitStep g i pc g' pc') :
    RwOk n g' ∧ ExitOk g' i pc' := by
  cases hst with
  | lock hw hr =>
      refine ⟨h.writeLock hi rfl, ?_, (h.quiet hw).1⟩
      exact current_concat g.sections (.exit i)
  | foundNull hnull =>
      refine ⟨h, hok.1, hok.2, ?_⟩
      rw [hnull]
      rfl
  | found hdata => exact ⟨h, hok⟩
  | free p hdata =>
      obtain ⟨hcur, hlive⟩ := hok
      rw [hdata] at hlive
      have hp : g.slab.live p = true :=
        (hlive p).mpr (List.mem_singleton.mpr rfl)
      exact ⟨h.locked (hlocked rfl) (h.sound.kfree hp) g.myData, hcur,
        OnlyLive.kfree hlive List.not_mem_nil⟩
  | clear =>
      exact ⟨h.locked (hlocked rfl) h.sound none, hok.1, hok.2, rfl⟩
  | unlock =>
      obtain ⟨hcur, hquiet⟩ := hok
      refine ⟨⟨h.sound, h.issued, fun _ => ?_⟩, trivial⟩
      show Quiet _ (current g.sections)
      rw [hcur]
      exact hquiet

/-! ## The steps of other calls -/

/-- Beside the holder of the write lock, nothing happens to the heap, to
`my_data` or to the order of the sections. -/
theorem beside_writer {c : Conf} {i j : Nat} {l l' m : Call} {g' : Rw}
    {mem : Option (BitVec 64)} (hb : LockHeld c) (hij : i ≠ j)
    (hl : c.calls[i]? = some l) (hm : c.calls[j]? = some m)
    (hwm : writing m = true)
    (hst : simpleRwlockStep c.shared i l mem = some (g', l')) :
    ∃ k, g' = { c.shared with myLock := k } := by
  obtain ⟨hr, hw⟩ := Held.sole hb (Ne.symm hij) hm hwm hl
  have hlocked := Held.writer_of_writing hb hm hwm
  cases simpleRwlockStep_outside hst hw with
  | same k => exact ⟨k, rfl⟩
  | print p hprint =>
      rw [hr] at hprint
      cases hprint
  | readLock k hfree =>
      rw [hlocked] at hfree
      cases hfree
  | writeLock k s hs hfree hnone =>
      rw [hlocked] at hfree
      cases hfree

/-- Beside a reader, the version and its value stay. -/
theorem beside_reader {c : Conf} {i j : Nat} {l l' m : Call} {g' : Rw}
    {mem : Option (BitVec 64)} (hb : LockHeld c)
    (hl : c.calls[i]? = some l) (hm : c.calls[j]? = some m)
    (hrm : reading m = true)
    (hst : simpleRwlockStep c.shared i l mem = some (g', l')) :
    g'.myData = c.shared.myData ∧
      current g'.sections = current c.shared.sections := by
  have hfree := Held.no_writer hb hm hrm
  have hw : writing l = false := by
    cases hwl : writing l with
    | false => rfl
    | true =>
        have hlocked := Held.writer_of_writing hb hl hwl
        rw [hfree] at hlocked
        cases hlocked
  cases simpleRwlockStep_outside hst hw with
  | same k => exact ⟨rfl, rfl⟩
  | print p hprint => exact ⟨rfl, rfl⟩
  | readLock k _ =>
      exact ⟨rfl, current_concat c.shared.sections (.read i)⟩
  | writeLock k s hs _ hnone =>
      -- somebody is reading
      have hle := le_total (fun l => (reading l).toNat) hm
      have hreaders := Held.readers hb
      rw [hrm] at hle
      simp only [Bool.toNat_true] at hle
      omega

theorem CallOk.other {c : Conf} {i j : Nat} {l l' m : Call} {g' : Rw}
    {mem : Option (BitVec 64)} (hb : LockHeld c) (hij : i ≠ j)
    (hl : c.calls[i]? = some l) (hm : c.calls[j]? = some m)
    (h : CallOk c.shared j m)
    (hst : simpleRwlockStep c.shared i l mem = some (g', l')) :
    CallOk g' j m := by
  have hgrows : Grows Section.who i c.shared.sections g'.sections :=
    (simpleRwlockStep_sections hst).imp id
      fun ⟨s, hwho, happ, _⟩ => ⟨s, hwho, happ⟩
  have hsilent : Silent Section.who j c.shared.sections →
      Silent Section.who j g'.sections := fun hs => hs.grows hij hgrows
  have hplaced : ∀ before, Placed Section.who before (.read j)
      c.shared.sections → Placed Section.who before (.read j) g'.sections :=
    fun before hs => hs.grows hij hgrows
  by_cases hwm : writing m = true
  · obtain ⟨k, rfl⟩ := beside_writer hb hij hl hm hwm hst
    cases m with
    | read r => cases hwm
    | write w =>
        obtain ⟨arg, new, old, pc⟩ := w
        cases pc <;> exact h
    | exit pc => cases pc <;> exact h
    | invalid => trivial
  · cases m with
    | invalid => trivial
    | write w =>
        obtain ⟨arg, new, old, pc⟩ := w
        cases pc with
        | lock => exact hsilent h
        | returned => trivial
        | _ => exact absurd rfl hwm
    | exit pc =>
        cases pc with
        | lock => exact hsilent h
        | returned => trivial
        | _ => exact absurd rfl hwm
    | read r =>
        have hanswered : ∀ printed, Answered c.shared j printed →
            Answered g' j printed := by
          rintro printed ⟨before, hs, hprinted⟩
          exact ⟨before, hplaced before hs, hprinted⟩
        by_cases hrm : reading (.read r) = true
        · obtain ⟨hdata, hcur⟩ := beside_reader hb hl hm hrm hst
          have hseen : Seen c.shared j → Seen g' j := by
            rintro ⟨before, hs, heq⟩
            exact ⟨before, hplaced before hs, heq.trans hcur.symm⟩
          obtain ⟨old, printed, pc⟩ := r
          cases pc with
          | lock => cases hrm
          | returned => cases hrm
          | test => exact ⟨hseen h.1, h.2⟩
          | load => exact ⟨hseen h.1, h.2⟩
          | firstPrint => exact ⟨hseen h.1, h.2.1, h.2.2.trans hdata.symm⟩
          | secondPrint =>
              obtain ⟨hs, ⟨v, hv, hprinted⟩, hold⟩ := h
              exact ⟨hseen hs, ⟨v, hcur.trans hv, hprinted⟩,
                hold.trans hdata.symm⟩
          | unlock => exact hanswered printed h
        · obtain ⟨old, printed, pc⟩ := r
          cases pc with
          | lock => exact ⟨hsilent h.1, h.2⟩
          | returned => exact hanswered printed h
          | _ => exact absurd rfl hrm

theorem callOk_preserved :
    Preserved enter simpleRwlockStep LockHeld RwOk CallOk := by
  refine
    { issue := fun n g h =>
        ⟨h.sound, fun s hs => Nat.lt_succ_of_lt (h.issued s hs), h.quiet⟩
      enter := fun n g k h => ?_
      own := fun c i l mem g' l' hb h hl hok hst => ?_
      other := fun c i l mem g' l' j m hb _ hij hl _ hm hok hst =>
        hok.other hb hij hl hm hst }
  · have hsilent : Silent Section.who n g.sections := silent_of_lt h.issued
    cases k with
    | exit => exact hsilent
    | ioctl cmd arg =>
        unfold enter
        dsimp only
        split
        · exact ⟨hsilent, rfl⟩
        · split
          · exact hsilent
          · trivial
  · have hi := lookup_lt hl
    rcases simpleRwlockStep_cases hst with
      ⟨r, r', rfl, rfl, hread⟩ | ⟨w, w', rfl, rfl, hwrite⟩ |
        ⟨pc, pc', rfl, rfl, hexit⟩
    · exact hread.own hi (Held.no_writer hb hl) h hok
    · exact hwrite.own hi (Held.writer_of_writing hb hl) h hok
    · exact hexit.own hi (Held.writer_of_writing hb hl) h hok

/-- The invariant of every reachable state. -/
def Invariant (c : Conf) : Prop := LockHeld c ∧ Annotated RwOk CallOk c

theorem invariant_loaded (junk : BitVec 64) : Invariant (loaded junk) := by
  have hlive : OnlyLive ((Slab.empty.kmalloc junk).put 0 0) [0] :=
    (onlyLive_empty.kmalloc junk).put 0 0
  have hzero : (Slab.empty.kmalloc junk).live 0 = true := by
    simp [Slab.live_kmalloc, Slab.fresh, Slab.empty]
  have htouch : (Slab.empty.kmalloc junk).touch 0 = Slab.empty.kmalloc junk :=
    Slab.touch_of_live hzero
  refine ⟨lockHeld_loaded junk, annotated_start ⟨?_, ?_, fun _ => ⟨?_, rfl⟩⟩⟩
  · show (((Slab.empty.kmalloc junk).touch 0).put 0 0).Sound
    rw [htouch]
    exact (Slab.sound_empty.kmalloc junk).put 0 0
  · exact fun s hs => absurd hs List.not_mem_nil
  · show OnlyLive (((Slab.empty.kmalloc junk).touch 0).put 0 0) [0]
    rw [htouch]
    exact hlive

theorem invariant_step (c : Conf) (mv : Move) (d : Conf) (h : Invariant c)
    (hst : step c mv = some d) : Invariant d :=
  ⟨lockHeld_step c mv d h.1 hst, Annotated.step callOk_preserved h.1 h.2 hst⟩

/-! ## After `simple_rwlock_exit` -/

def Section.isExit : Section → Bool
  | .exit _ => true
  | _ => false

/-- `simple_rwlock_exit` has had its section. -/
def exited (sections : List Section) : Bool := sections.any Section.isExit

/-- The argument of a write, and `arg` for any other section. -/
def Section.argument (arg : BitVec 64) : Section → BitVec 64
  | .read _ => arg
  | .write _ arg' => arg'
  | .exit _ => arg

/-- The argument of the last write in the order of the lock, 0 if there was
none. -/
def lastArg (sections : List Section) : BitVec 64 :=
  sections.foldl Section.argument 0

/-- No `IOCTL_WRITE` takes the lock after the section of
`simple_rwlock_exit`. -/
def WritesBeforeExit (c : Conf) : Move → Prop
  | .issue _ => True
  | .advance i _ =>
      ∀ l ∈ c.calls[i]?, l.locksToWrite = true →
        exited c.shared.sections = false

instance (c : Conf) : ∀ mv, Decidable (WritesBeforeExit c mv)
  | .issue _ => inferInstanceAs (Decidable True)
  | .advance i _ =>
      inferInstanceAs (Decidable (∀ l ∈ c.calls[i]?, l.locksToWrite = true →
        exited c.shared.sections = false))

/-- No write comes after an exit. -/
def Ordered (sections : List Section) : Prop :=
  sections.Pairwise fun s s' => s.isExit = true → s'.isWrite = false

theorem Ordered.concat {sections : List Section} {s : Section}
    (h : Ordered sections)
    (hs : s.isWrite = true → exited sections = false) :
    Ordered (sections ++ [s]) := by
  refine List.pairwise_append.mpr
    ⟨h, List.pairwise_singleton _ _, fun s' hs' t ht hexit => ?_⟩
  rw [List.mem_singleton.mp ht]
  cases hw : s.isWrite with
  | false => rfl
  | true =>
      have hnone := hs hw
      rw [exited, List.any_eq_false] at hnone
      exact absurd hexit (hnone s' hs')

theorem ordered_step (c : Conf) (mv : Move) (d : Conf)
    (h : Ordered c.shared.sections) (hC : WritesBeforeExit c mv)
    (hst : step c mv = some d) : Ordered d.shared.sections := by
  rcases step_cases hst with
    ⟨k, -, hd⟩ | ⟨i, mem, l, g, l', hmv, hl, hb, hd⟩
  · rw [hd]
    exact h
  · subst hmv hd
    rcases simpleRwlockStep_sections hb with hsame | ⟨s, -, happ, hwrite⟩
    · show Ordered g.sections
      rw [hsame]
      exact h
    · show Ordered g.sections
      rw [happ]
      exact h.concat fun hs => hC l hl (hwrite hs)

/-- With the writes before the exit, what is current is the last argument
until the exit and nothing after it. -/
theorem current_eq {sections : List Section} (h : Ordered sections) :
    current sections =
      if exited sections then none else some (lastArg sections) := by
  have hdead : ∀ ss : List Section, (∀ s ∈ ss, s.isWrite = false) →
      ss.foldl Section.update none = none := by
    intro ss hss
    induction ss with
    | nil => rfl
    | cons s ss ih =>
        have hrest := ih fun t ht => hss t (List.mem_cons_of_mem s ht)
        cases s with
        | read who => exact hrest
        | exit who => exact hrest
        | write who arg => cases hss _ List.mem_cons_self
  have hall : ∀ (ss : List Section) (v : BitVec 64), Ordered ss →
      ss.foldl Section.update (some v) =
        if exited ss then none
        else some (ss.foldl Section.argument v) := by
    intro ss
    induction ss with
    | nil => exact fun v _ => rfl
    | cons s ss ih =>
        intro v hss
        obtain ⟨hfirst, hrest⟩ := List.pairwise_cons.mp hss
        cases s with
        | read who => exact ih v hrest
        | write who arg => exact ih arg hrest
        | exit who => exact hdead ss fun t ht => hfirst t ht rfl
  exact hall sections 0 h

/-! ## The result -/

/-- The data discipline of the module. -/
structure Disciplined (c : Conf) : Prop where
  neverStale : c.shared.slab.stale = 0
  freedAtMostOnce : ∀ p, c.shared.slab.freeCount p ≤ 1
  /-- a reader prints the last argument twice, or finds NULL after the exit -/
  reads : ∀ (i : Nat) (r : ReadCall), c.calls[i]? = some (.read r) →
    r.pc = .returned →
    ∃ before, Placed Section.who before (.read i) c.shared.sections ∧
      r.printed =
        if exited before then [] else [lastArg before, lastArg before]
  oneVersion : c.shared.myLock.writer = false →
    exited c.shared.sections = false →
    ∃ p, c.shared.myData = some p ∧ OnlyLive c.shared.slab [p]
  cleared : c.shared.myLock.writer = false →
    exited c.shared.sections = true →
    c.shared.myData = none ∧ OnlyLive c.shared.slab []

/-- In every run in which no `IOCTL_WRITE` takes the lock after the section of
`simple_rwlock_exit`: nothing is accessed after it was freed or freed twice,
every reader prints the argument of the last write twice, and whenever no
writer holds the lock there is one object until the exit, and none after
it. -/
theorem rwlock_disciplined {junk : BitVec 64} {mvs : List Move} {c : Conf}
    (hwrites : Along step WritesBeforeExit (loaded junk) mvs)
    (hrun : run step (loaded junk) mvs = some c) : Disciplined c := by
  obtain ⟨-, hshared, hcall⟩ : Invariant c :=
    run_induct invariant_step (invariant_loaded junk) hrun
  have hordered : Ordered c.shared.sections :=
    run_induct_along (P := fun c : Conf => Ordered c.shared.sections)
      ordered_step (show Ordered (loaded junk).shared.sections from .nil)
      hwrites hrun
  refine
    { neverStale := hshared.sound.stale
      freedAtMostOnce := hshared.sound.freeCount_le_one
      reads := fun i r hl hpc => ?_
      oneVersion := fun hfree hexit => ?_
      cleared := fun hfree hexit => ?_ }
  · have hok : ReadOk c.shared i r := hcall i _ hl
    unfold ReadOk at hok
    rw [hpc] at hok
    obtain ⟨before, hplaced, hprinted⟩ := hok
    obtain ⟨rest, hsplit⟩ := hplaced.front
    have hbefore : Ordered before := by
      rw [hsplit] at hordered
      exact (List.pairwise_append.mp hordered).1
    refine ⟨before, hplaced, ?_⟩
    rw [hprinted, current_eq hbefore]
    cases exited before <;> rfl
  · have hquiet := hshared.quiet hfree
    rw [current_eq hordered, hexit] at hquiet
    obtain ⟨hlive, hval⟩ := hquiet
    cases hdata : c.shared.myData with
    | none =>
        rw [hdata] at hval
        cases hval
    | some p =>
        rw [hdata] at hlive
        exact ⟨p, rfl, hlive⟩
  · have hquiet := hshared.quiet hfree
    rw [current_eq hordered, hexit] at hquiet
    cases hdata : c.shared.myData with
    | none =>
        obtain ⟨hlive, -⟩ := hquiet
        rw [hdata] at hlive
        exact ⟨rfl, hlive⟩
    | some p =>
        obtain ⟨-, x, hx, -⟩ := hquiet.live hdata
        cases hx

/-- Two readers overlap, a writer comes between them and a third one, and the
module goes. -/
def overlapRun : List Move :=
  List.flatten
    [ List.replicate 3 (.issue (.ioctl ioctlRead 0))
    , [.issue (.ioctl ioctlWrite 5), .issue .exit]
    , [.advance 0 none, .advance 0 none, .advance 0 none, .advance 0 none]
    , List.replicate 6 (.advance 1 none)
    , List.replicate 2 (.advance 0 none)
    , List.replicate 7 (.advance 3 (some 9))
    , List.replicate 6 (.advance 2 none)
    , List.replicate 5 (.advance 4 none) ]

theorem rwlock_disciplined_overlapRun :
    ∃ c, run step (loaded 7) overlapRun = some c ∧ Disciplined c := by
  have hsome : (run step (loaded 7) overlapRun).isSome = true := by
    decide +kernel
  obtain ⟨c, hrun⟩ := Option.isSome_iff_exists.mp hsome
  exact ⟨c, hrun, rwlock_disciplined (by decide +kernel) hrun⟩

end EmbeddedSystem.Labs.SimpleRwlock
