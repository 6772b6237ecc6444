import EmbeddedSystem.Verified.ModuleInit
import EmbeddedSystem.Labs.Ch3Queue
import EmbeddedSystem.Labs.Ch4Queue
import EmbeddedSystem.Labs.SimpleBlock1
import EmbeddedSystem.Labs.SimpleSpin

/-!
# Loading the queue and buffer devices

The init functions of `ch3_mod_202111360.c`, `ch4_mod_202111360.c`,
`simple_spin.c` and `simple_block_1.c` make their device reachable with
`cdev_add` before they set up what its ioctls use.  Each module is a `Device`
here: its init function statement by statement, its calls as in its own
module, and the parts of the device that their statements use.

As long as every ioctl is issued after the parts it needs were set up, none
of them meets one that is not; an ioctl that is issued earlier can get there
on its own (`ready_before_use`).  A `ch4_read` needs only the list head: it
takes `my_lock` only after it has seen a message in the list, which no
`ch4_write` can have put there without the lock.
-/

set_option autoImplicit false

namespace EmbeddedSystem.Labs.DeviceInit

open EmbeddedSystem.Verified
open EmbeddedSystem.Verified.Transition
open EmbeddedSystem.Verified.ModuleInit
open EmbeddedSystem.Verified.WaitQueue (Phase)

/-- What the four modules have to set up. -/
inductive Part where
  | listHead
  | waitQueue
  | spinlock
  | kernelBuffer
  | bufferContents
deriving DecidableEq, Repr

/-! ## `ch3` -/

/-- `ch3_init` -/
def ch3Init : List (Stmt Part) :=
  [ .allocChrdevRegion false
  , .cdevAlloc false
  , .cdevInit
  , .cdevAdd true
  , .setUp .listHead
  , .setUp .spinlock ]

/-- What a statement of `ch3_read` uses. -/
def ch3ReadUses : Ch3Queue.ReadPc → List Part
  | .lock => [.spinlock, .listHead]
  | _ => []

/-- What a statement of `ch3_write` uses. -/
def ch3WriteUses : Ch3Queue.WritePc → List Part
  | .lock _ => [.spinlock, .listHead]
  | _ => []

def ch3Uses : Ch3Queue.Call → List Part
  | .read r => ch3ReadUses r.pc
  | .write w => ch3WriteUses w.pc
  | .other => []

def ch3 : Device Part where
  Shared := Ch3Queue.Ch3
  Local := Ch3Queue.Call
  Args := Ch3Queue.Ioctl
  Choice := Ch3Queue.Outcome
  init := ch3Init
  static := []
  shared := Ch3Queue.ch3Init
  enter := Ch3Queue.ch3Ioctl
  body := Ch3Queue.ch3Step
  uses := ch3Uses

/-- What an ioctl needs from the start. -/
def ch3Needs (k : Ch3Queue.Ioctl) : List Part :=
  if k.cmd = Ch3Queue.ch3IoctlRead ∨ k.cmd = Ch3Queue.ch3IoctlWrite then
    [.spinlock, .listHead]
  else []

/-- What a call may still use. -/
def ch3Reach : Ch3Queue.Call → List Part
  | .read _ => [.spinlock, .listHead]
  | .write _ => [.spinlock, .listHead]
  | .other => []

theorem ch3ReadUses_subset (pc : Ch3Queue.ReadPc) :
    ch3ReadUses pc ⊆ [.spinlock, .listHead] := by
  cases pc with
  | lock => exact List.Subset.refl _
  | _ => exact List.nil_subset _

theorem ch3WriteUses_subset (pc : Ch3Queue.WritePc) :
    ch3WriteUses pc ⊆ [.spinlock, .listHead] := by
  cases pc with
  | lock n => exact List.Subset.refl _
  | _ => exact List.nil_subset _

/-- A `ch3_write` on its own gets to its locked section. -/
theorem ch3Write_reaches_lock (g : Ch3Queue.Ch3) (i : Nat)
    (buf : Ch3Queue.MsgSt) :
    ∃ os g', CallPool.solo Ch3Queue.ch3Step i
      (g, .write ⟨buf, none, .allocNode⟩) os =
        some (g', .write ⟨buf, some 0, .lock g.nodes.fresh⟩) := by
  refine ⟨[⟨0, false, buf⟩, ⟨0, false, buf⟩, ⟨0, false, buf⟩], ?_⟩
  simp [CallPool.solo, Ch3Queue.ch3Step, Ch3Queue.ch3Write,
    Ch3Queue.Ch3.msgPtr, Ch3Queue.Ch3.heap, NodeHeap.buf, Slab.get_put,
    Slab.get_kmalloc]

theorem ch3_guarded : Guarded ch3 ch3Needs (Within ch3Reach) := by
  apply guarded_of_reach
  · intro k
    show ch3Reach (Ch3Queue.ch3Ioctl k) ⊆ ch3Needs k
    unfold Ch3Queue.ch3Ioctl ch3Needs
    by_cases hread : k.cmd = Ch3Queue.ch3IoctlRead
    · rw [if_pos hread, if_pos (Or.inl hread)]
      exact List.Subset.refl _
    rw [if_neg hread]
    by_cases hwrite : k.cmd = Ch3Queue.ch3IoctlWrite
    · rw [if_pos hwrite, if_pos (Or.inr hwrite)]
      exact List.Subset.refl _
    · rw [if_neg hwrite]
      exact List.nil_subset _
  · intro g n l o g' l' hst
    rcases Ch3Queue.ch3Step_cases hst with
      ⟨r, r', hr, hr', -⟩ | ⟨w, w', hw, hw', -⟩
    · rw [hr, hr']
      exact List.Subset.refl _
    · rw [hw, hw']
      exact List.Subset.refl _
  · intro l
    show ch3Uses l ⊆ ch3Reach l
    cases l with
    | read r => exact ch3ReadUses_subset r.pc
    | write w => exact ch3WriteUses_subset w.pc
    | other => exact List.Subset.refl _
  · intro i c k hnot
    show ∃ (os : List Ch3Queue.Outcome) (_ : Ch3Queue.Outcome)
      (g : Ch3Queue.Ch3) (l : Ch3Queue.Call),
        CallPool.solo Ch3Queue.ch3Step c.calls.length
          (c.shared, Ch3Queue.ch3Ioctl k) os = some (g, l) ∧
          ¬ ch3Uses l ⊆ i.ready
    unfold ch3Needs at hnot
    split at hnot
    case isFalse => exact absurd (List.nil_subset _) hnot
    case isTrue hcmd =>
    unfold Ch3Queue.ch3Ioctl
    by_cases hread : k.cmd = Ch3Queue.ch3IoctlRead
    · rw [if_pos hread]
      exact ⟨[], ⟨0, false, k.userBuf⟩, c.shared, _, rfl, hnot⟩
    · have hwrite := hcmd.resolve_left hread
      rw [if_neg hread, if_pos hwrite]
      obtain ⟨os, g, hsolo⟩ :=
        ch3Write_reaches_lock c.shared c.calls.length k.userBuf
      exact ⟨os, ⟨0, false, k.userBuf⟩, g, _, hsolo, hnot⟩

/-! ## `simple_spin` -/

/-- `simple_spin_init` -/
def simpleSpinInit : List (Stmt Part) :=
  [ .allocChrdevRegion false
  , .cdevAlloc false
  , .cdevInit
  , .cdevAdd true
  , .setUp .spinlock
  , .vmalloc .kernelBuffer
  , .memset .kernelBuffer .bufferContents ]

/-- A locked section uses the lock and the buffer. -/
def simpleSpinUses : SimpleSpin.Call → List Part
  | .read ⟨_, .lock⟩ => [.spinlock, .kernelBuffer, .bufferContents]
  | .write ⟨_, .lock⟩ => [.spinlock, .kernelBuffer, .bufferContents]
  | _ => []

def simpleSpin : Device Part where
  Shared := SimpleSpin.Spin
  Local := SimpleSpin.Call
  Args := SimpleSpin.Ioctl
  Choice := Nat
  init := simpleSpinInit
  static := []
  shared := SimpleSpin.simpleSpinInit
  enter := SimpleSpin.simpleSpinIoctl
  body := SimpleSpin.simpleSpinStep
  uses := simpleSpinUses

def simpleSpinNeeds (k : SimpleSpin.Ioctl) : List Part :=
  if k.cmd = SimpleSpin.simpleSpinReadCmd ∨
      k.cmd = SimpleSpin.simpleSpinWriteCmd then
    [.spinlock, .kernelBuffer, .bufferContents]
  else []

/-- An ioctl uses all that it needs in its first statement. -/
theorem simpleSpinUses_enter (k : SimpleSpin.Ioctl) :
    simpleSpinUses (SimpleSpin.simpleSpinIoctl k) = simpleSpinNeeds k := by
  unfold SimpleSpin.simpleSpinIoctl simpleSpinNeeds
  by_cases hread : k.cmd = SimpleSpin.simpleSpinReadCmd
  · rw [if_pos hread, if_pos (Or.inl hread)]
    rfl
  rw [if_neg hread]
  by_cases hwrite : k.cmd = SimpleSpin.simpleSpinWriteCmd
  · rw [if_pos hwrite, if_pos (Or.inr hwrite)]
    rfl
  · rw [if_neg hwrite, if_neg fun h => h.elim hread hwrite]
    rfl

theorem simpleSpin_guarded :
    Guarded simpleSpin simpleSpinNeeds (Within simpleSpinUses) := by
  apply guarded_of_reach
  · intro (k : SimpleSpin.Ioctl)
    show simpleSpinUses (SimpleSpin.simpleSpinIoctl k) ⊆ simpleSpinNeeds k
    rw [simpleSpinUses_enter]
    exact List.Subset.refl _
  · intro g n l o g' l' hst
    cases SimpleSpin.simpleSpinStep_cases hst with
    | read userBuf => exact List.nil_subset _
    | write userBuf => exact List.nil_subset _
  · exact fun l => List.Subset.refl _
  · intro i c (k : SimpleSpin.Ioctl) hnot
    rw [← simpleSpinUses_enter] at hnot
    exact ⟨[], (0 : Nat), c.shared, SimpleSpin.simpleSpinIoctl k, rfl, hnot⟩

/-! ## `ch4` -/

/-- `ch4_init` -/
def ch4Init : List (Stmt Part) :=
  [ .allocChrdevRegion true
  , .cdevAlloc true
  , .cdevInit
  , .cdevAdd true
  , .setUp .listHead
  , .setUp .spinlock ]

/-- What a step of `wait_event_interruptible` uses. -/
def ch4WaitUses : Phase → List Part
  | .entry => [.listHead]
  | .prepare => [.waitQueue]
  | .test _ => [.listHead, .waitQueue]
  | .asleep => [.waitQueue]

/-- What a statement of `ch4_read` uses. -/
def ch4ReadUses : Ch4Queue.ReadPc → List Part
  | .wait p => ch4WaitUses p
  | .lock => [.spinlock, .listHead]
  | _ => []

/-- What a statement of `ch4_write` uses. -/
def ch4WriteUses : Ch4Queue.WritePc → List Part
  | .lock _ => [.spinlock, .listHead]
  | .wake => [.waitQueue]
  | _ => []

def ch4Uses : Ch4Queue.Call → List Part
  | .read r => ch4ReadUses r.pc
  | .write w => ch4WriteUses w.pc
  | .invalid _ => []

/-- `DECLARE_WAIT_QUEUE_HEAD` leaves nothing to do for the init function. -/
def ch4 : Device Part where
  Shared := Ch4Queue.Ch4
  Local := Ch4Queue.Call
  Args := Ch4Queue.Ioctl
  Choice := Ch4Queue.Outcome
  init := ch4Init
  static := [.waitQueue]
  shared := Ch4Queue.ch4Init
  enter := Ch4Queue.ch4Ioctl
  body := Ch4Queue.ch4Step
  uses := ch4Uses

def ch4Needs (k : Ch4Queue.Ioctl) : List Part :=
  if k.cmd = Ch4Queue.ch4IoctlRead then [.listHead]
  else if k.cmd = Ch4Queue.ch4IoctlWrite then [.spinlock, .listHead]
  else []

/-- What a call may still use, the wait queue and what a message in the list
stands for apart. -/
def ch4Reach : Ch4Queue.Call → List Part
  | .read ⟨_, _, _, .wait _⟩ => [.listHead]
  | .read ⟨_, _, _, .lock⟩ => [.spinlock, .listHead]
  | .read _ => []
  | .write _ => [.spinlock, .listHead]
  | .invalid _ => []

/-- Nobody has put a message into the list before the lock was set up. -/
structure Ch4Ready (i : Init Part) (c : Ch4Queue.Conf) : Prop where
  waitQueue : .waitQueue ∈ i.ready
  spinlock : c.shared.msgListHead ≠ [] → .spinlock ∈ i.ready
  calls : Within (D := ch4) ch4Reach i c

/-- A reader leaves its wait for the lock only with a message in the list. -/
theorem list_of_lock {g g' : Ch4Queue.Ch4} {n : Nat}
    {r r' : Ch4Queue.ReadCall} {o : Ch4Queue.Outcome}
    (h : Ch4Queue.ch4Read g n r o = some (g', r')) (hlock : r'.pc = .lock) :
    g.msgListHead ≠ [] := by
  have hwoken : ∀ p, r.pc = .wait p → g.msgListHead ≠ [] := by
    intro p hpc
    simp only [Ch4Queue.ch4Read, hpc] at h
    split at h
    case h_1 => cases h
    case h_2 => cases h; cases hlock
    case h_3 q ret hw =>
      cases h
      rcases WaitQueue.waitEventInterruptible_done hw with ⟨-, hcond⟩ | hret
      · intro hempty
        rw [hempty] at hcond
        cases hcond
      · dsimp only at hlock
        rw [if_pos (by rw [hret]; decide)] at hlock
        cases hlock
  cases Ch4Queue.ch4Read_step h with
  | woken p q hpc => exact hwoken p hpc
  | _ => cases hlock

theorem ch4Read_ready {i : Init Part} {g g' : Ch4Queue.Ch4} {n : Nat}
    {r r' : Ch4Queue.ReadCall} {o : Ch4Queue.Outcome}
    (hlist : g.msgListHead ≠ [] → .spinlock ∈ i.ready)
    (hreach : ch4Reach (.read r) ⊆ i.ready)
    (h : Ch4Queue.ch4Read g n r o = some (g', r')) :
    (g'.msgListHead ≠ [] → .spinlock ∈ i.ready) ∧
      ch4Reach (.read r') ⊆ i.ready := by
  have hlock := list_of_lock h
  have hstep := Ch4Queue.ch4Read_step h
  obtain ⟨buf, ret, uncopied, pc⟩ := r
  cases hstep with
  | waitAgain p p' q hpc =>
      cases hpc
      exact ⟨hlist, hreach⟩
  | woken p q hpc =>
      cases hpc
      refine ⟨hlist, List.cons_subset.mpr ⟨hlist (hlock rfl), hreach⟩⟩
  | take m b rest t hpc hhead hptr hget =>
      refine ⟨fun _ => hlist ?_, List.nil_subset _⟩
      rw [hhead]
      exact List.cons_ne_nil m rest
  | _ => exact ⟨hlist, List.nil_subset _⟩

theorem ch4Write_ready {i : Init Part} {g g' : Ch4Queue.Ch4} {n : Nat}
    {w w' : Ch4Queue.WriteCall} {o : Ch4Queue.Outcome}
    (hlist : g.msgListHead ≠ [] → .spinlock ∈ i.ready)
    (hreach : ch4Reach (.write w) ⊆ i.ready)
    (h : Ch4Queue.ch4Write g n w o = some (g', w')) :
    (g'.msgListHead ≠ [] → .spinlock ∈ i.ready) ∧
      ch4Reach (.write w') ⊆ i.ready := by
  refine ⟨?_, hreach⟩
  cases Ch4Queue.ch4Write_step h with
  | append m msg hpc hcont => exact fun _ => hreach List.mem_cons_self
  | _ => exact hlist

theorem Ch4Ready.use {i : Init Part} {c : Ch4Queue.Conf} {n : Nat}
    {l : Ch4Queue.Call} (h : Ch4Ready i c) (hl : c.calls[n]? = some l) :
    ch4Uses l ⊆ i.ready := by
  have hreach : ch4Reach l ⊆ i.ready := h.calls n l hl
  have hwq : [.waitQueue] ⊆ i.ready :=
    List.cons_subset.mpr ⟨h.waitQueue, List.nil_subset _⟩
  cases l with
  | read r =>
      obtain ⟨buf, ret, uncopied, pc⟩ := r
      cases pc with
      | wait p =>
          cases p with
          | entry => exact hreach
          | prepare => exact hwq
          | test sig =>
              exact List.cons_subset.mpr ⟨hreach List.mem_cons_self, hwq⟩
          | asleep => exact hwq
      | lock => exact hreach
      | _ => exact List.nil_subset _
  | write w =>
      obtain ⟨buf, pc⟩ := w
      cases pc with
      | lock m => exact hreach
      | wake => exact hwq
      | _ => exact List.nil_subset _
  | invalid code => exact List.nil_subset _

/-- A `ch4_write` on its own gets to its locked section. -/
theorem ch4Write_reaches_lock (g : Ch4Queue.Ch4) (i : Nat)
    (buf : Ch4Queue.MsgSt) :
    ∃ os g', CallPool.solo Ch4Queue.ch4Step i
      (g, .write ⟨buf, .allocNode⟩) os =
        some (g', .write ⟨buf, .lock g.nodes.fresh⟩) := by
  refine ⟨[⟨false, 0, false, buf⟩, ⟨false, 0, false, buf⟩,
    ⟨false, 0, false, buf⟩], ?_⟩
  simp [CallPool.solo, Ch4Queue.ch4Step, Ch4Queue.ch4Write,
    Ch4Queue.Ch4.msgPtr, Slab.get_put, Slab.get_kmalloc]

theorem ch4Reach_enter (k : Ch4Queue.Ioctl) :
    ch4Reach (Ch4Queue.ch4Ioctl k) = ch4Needs k := by
  unfold Ch4Queue.ch4Ioctl ch4Needs
  split
  · rfl
  · split <;> rfl

theorem ch4_guarded : Guarded ch4 ch4Needs Ch4Ready where
  begin :=
    ⟨List.mem_cons_self, fun h => absurd rfl h, within_start⟩
  init _ _ _ _ h hst :=
    ⟨Init.ready_subset hst h.waitQueue,
      fun hlist => Init.ready_subset hst (h.spinlock hlist),
      h.calls.init hst⟩
  issue i c k h hk := by
    refine ⟨h.waitQueue, h.spinlock, h.calls.issue ?_⟩
    exact (ch4Reach_enter k).symm ▸ hk
  advance i c n l o g l' h hl hb := by
    have hreach : ch4Reach l ⊆ i.ready := h.calls n l hl
    have hstep : Ch4Queue.ch4Step c.shared n l o = some (g, l') := hb
    cases l with
    | read r =>
        obtain ⟨⟨g', r'⟩, hr, heq⟩ := Option.map_eq_some_iff.mp hstep
        cases heq
        obtain ⟨hlist, hreach'⟩ := ch4Read_ready h.spinlock hreach hr
        exact ⟨h.waitQueue, hlist, h.calls.advance hl hreach'⟩
    | write w =>
        obtain ⟨⟨g', w'⟩, hw, heq⟩ := Option.map_eq_some_iff.mp hstep
        cases heq
        obtain ⟨hlist, hreach'⟩ := ch4Write_ready h.spinlock hreach hw
        exact ⟨h.waitQueue, hlist, h.calls.advance hl hreach'⟩
    | invalid code => cases hstep
  use _ _ _ _ h hl := h.use hl
  exposed i c k h hnot := by
    show ∃ (os : List Ch4Queue.Outcome) (_ : Ch4Queue.Outcome)
      (g : Ch4Queue.Ch4) (l : Ch4Queue.Call),
        CallPool.solo Ch4Queue.ch4Step c.calls.length
          (c.shared, Ch4Queue.ch4Ioctl k) os = some (g, l) ∧
          ¬ ch4Uses l ⊆ i.ready
    unfold ch4Needs at hnot
    unfold Ch4Queue.ch4Ioctl
    split at hnot
    case isTrue hread =>
      rw [if_pos hread]
      exact ⟨[], ⟨false, 0, false, k.userBuf⟩, c.shared, _, rfl, hnot⟩
    case isFalse hread =>
    rw [if_neg hread]
    split at hnot
    case isTrue hwrite =>
      rw [if_pos hwrite]
      obtain ⟨os, g, hsolo⟩ :=
        ch4Write_reaches_lock c.shared c.calls.length k.userBuf
      exact ⟨os, ⟨false, 0, false, k.userBuf⟩, g, _, hsolo, hnot⟩
    case isFalse => exact absurd (List.nil_subset _) hnot

/-! ## `simple_block_1` -/

/-- `simple_block_1_init` -/
def simpleBlock1Init : List (Stmt Part) :=
  [ .allocChrdevRegion false
  , .cdevAlloc false
  , .cdevInit
  , .cdevAdd false
  , .setUp .spinlock
  , .setUp .waitQueue ]

/-- What a step of one of the three waits uses.  The test before the loop
reads only `my_data`. -/
def simpleBlock1WaitUses : Phase → List Part
  | .entry => []
  | _ => [.waitQueue]

/-- What a statement of `simple_block_1_ioctl` uses. -/
def simpleBlock1Uses (l : SimpleBlock1.Call) : List Part :=
  match l.pc with
  | .wait p => simpleBlock1WaitUses p
  | .waitInterruptible p => simpleBlock1WaitUses p
  | .waitTimeout p _ => simpleBlock1WaitUses p
  | .decrement => [.spinlock]
  | .increment => [.spinlock]
  | .wake => [.waitQueue]
  | .readBack => []
  | .returned _ => []

/-- `hz` is `HZ`. -/
def simpleBlock1 (hz : Nat) : Device Part where
  Shared := SimpleBlock1.Block1
  Local := SimpleBlock1.Call
  Args := SimpleBlock1.Ioctl
  Choice := SimpleBlock1.Env
  init := simpleBlock1Init
  static := []
  shared := SimpleBlock1.simpleBlock1Init
  enter := SimpleBlock1.simpleBlock1Ioctl hz
  body := SimpleBlock1.simpleBlock1Step
  uses := simpleBlock1Uses

/-- The commands of `simple_block_1.h`. -/
def Block1Command (k : SimpleBlock1.Ioctl) : Prop :=
  k.cmd = SimpleBlock1.wq ∨ k.cmd = SimpleBlock1.wqInterruptible ∨
    k.cmd = SimpleBlock1.wqInterruptibleTimeout ∨
    k.cmd = SimpleBlock1.wqWakeUp

instance (k : SimpleBlock1.Ioctl) : Decidable (Block1Command k) :=
  inferInstanceAs (Decidable (_ ∨ _ ∨ _ ∨ _))

def simpleBlock1Needs (k : SimpleBlock1.Ioctl) : List Part :=
  if Block1Command k then [.spinlock, .waitQueue] else []

/-- What a call may still use. -/
def simpleBlock1Reach (l : SimpleBlock1.Call) : List Part :=
  if SimpleBlock1.ended l then [] else [.spinlock, .waitQueue]

/-- Nobody has done anything before the wait queue was set up, and the lock is
set up before it. -/
structure Block1Ready (hz : Nat) (i : Init Part) (c : SimpleBlock1.Conf) :
    Prop where
  order : i.Ordered .spinlock .waitQueue
  untouched : .waitQueue ∈ i.ready ∨
    c.shared = SimpleBlock1.simpleBlock1Init
  calls : Within (D := simpleBlock1 hz) simpleBlock1Reach i c

theorem simpleBlock1Uses_subset (l : SimpleBlock1.Call) :
    simpleBlock1Uses l ⊆ simpleBlock1Reach l := by
  have hlock : [.spinlock] ⊆ [Part.spinlock, .waitQueue] := by decide
  have hwq : [.waitQueue] ⊆ [Part.spinlock, .waitQueue] := by decide
  have hwait : ∀ p, simpleBlock1WaitUses p ⊆ [.spinlock, .waitQueue] := by
    intro p
    cases p with
    | entry => exact List.nil_subset _
    | _ => exact hwq
  obtain ⟨k, pc⟩ := l
  cases pc with
  | wait p => exact hwait p
  | waitInterruptible p => exact hwait p
  | waitTimeout p left => exact hwait p
  | decrement => exact hlock
  | increment => exact hlock
  | wake => exact hwq
  | readBack => exact List.nil_subset _
  | returned code => exact List.nil_subset _

/-- Only a call that has not returned takes a step. -/
theorem simpleBlock1Reach_of_step {g : SimpleBlock1.Block1} {n : Nat}
    {l : SimpleBlock1.Call} {o : SimpleBlock1.Env}
    {x : SimpleBlock1.Block1 × SimpleBlock1.Call}
    (h : SimpleBlock1.simpleBlock1Step g n l o = some x) :
    simpleBlock1Reach l = [.spinlock, .waitQueue] := by
  obtain ⟨k, pc⟩ := l
  cases pc with
  | returned code => cases h
  | _ => rfl

theorem simpleBlock1Reach_subset (l : SimpleBlock1.Call) :
    simpleBlock1Reach l ⊆ [.spinlock, .waitQueue] := by
  unfold simpleBlock1Reach
  split
  · exact List.nil_subset _
  · exact List.Subset.refl _

theorem simpleBlock1Reach_enter (hz : Nat) (k : SimpleBlock1.Ioctl) :
    simpleBlock1Reach (SimpleBlock1.simpleBlock1Ioctl hz k) ⊆
      simpleBlock1Needs k := by
  unfold simpleBlock1Needs
  by_cases hcommand : Block1Command k
  · rw [if_pos hcommand]
    exact simpleBlock1Reach_subset _
  · rw [if_neg hcommand]
    unfold Block1Command at hcommand
    simp only [not_or] at hcommand
    obtain ⟨h1, h2, h3, h4⟩ := hcommand
    unfold SimpleBlock1.simpleBlock1Ioctl
    rw [if_neg h1, if_neg h2, if_neg h3, if_neg h4]
    exact List.nil_subset _

/-- From the initial state, a call's second statement uses the wait queue. -/
theorem simpleBlock1_second {hz : Nat} (hhz : 0 < hz) (n : Nat)
    {k : SimpleBlock1.Ioctl} (hk : Block1Command k) :
    ∃ g l, SimpleBlock1.simpleBlock1Step SimpleBlock1.simpleBlock1Init n
        (SimpleBlock1.simpleBlock1Ioctl hz k) ⟨false, 0⟩ = some (g, l) ∧
      simpleBlock1Uses l = [.waitQueue] := by
  have hleft : 2 * hz ≠ 0 := by omega
  have hnone : SimpleBlock1.available SimpleBlock1.simpleBlock1Init =
      false := by
    decide
  unfold SimpleBlock1.simpleBlock1Ioctl
  rcases hk with hcmd | hcmd | hcmd | hcmd
  · rw [hcmd, if_pos rfl]
    exact ⟨_, _, rfl, rfl⟩
  · rw [hcmd, if_neg (by decide), if_pos rfl]
    exact ⟨_, _, rfl, rfl⟩
  · rw [hcmd, if_neg (by decide), if_neg (by decide), if_pos rfl]
    refine ⟨SimpleBlock1.simpleBlock1Init, ⟨k, .waitTimeout .prepare (2 * hz)⟩,
      ?_, rfl⟩
    simp [SimpleBlock1.simpleBlock1Step, WaitQueue.waitCondTimeout,
      WaitQueue.waitEventInterruptibleTimeout, hnone, hleft]
  · rw [hcmd, if_neg (by decide), if_neg (by decide), if_neg (by decide),
      if_pos rfl]
    exact ⟨_, _, rfl, rfl⟩

theorem simpleBlock1_guarded {hz : Nat} (hhz : 0 < hz) :
    Guarded (simpleBlock1 hz) simpleBlock1Needs (Block1Ready hz) where
  begin := by
    have hfirst : SetsFirst .spinlock .waitQueue simpleBlock1Init := by decide
    exact ⟨Or.inr ⟨List.not_mem_nil, hfirst⟩, Or.inr rfl, within_start⟩
  init _ _ _ _ h hst :=
    ⟨h.order.step hst,
      h.untouched.imp_left fun hwq => Init.ready_subset hst hwq,
      h.calls.init hst⟩
  issue _ _ k h hk :=
    ⟨h.order, h.untouched,
      h.calls.issue (List.Subset.trans (simpleBlock1Reach_enter hz k) hk)⟩
  advance i c n l o g l' h hl hb := by
    have hreach : simpleBlock1Reach l ⊆ i.ready := h.calls n l hl
    rw [simpleBlock1Reach_of_step hb] at hreach
    refine ⟨h.order, Or.inl ?_, h.calls.advance hl ?_⟩
    · exact hreach (List.mem_cons_of_mem _ List.mem_cons_self)
    · exact List.Subset.trans (simpleBlock1Reach_subset l') hreach
  use _ _ n l h hl :=
    List.Subset.trans (simpleBlock1Uses_subset l) (h.calls n l hl)
  exposed i c k h hnot := by
    -- the wait queue is set up last
    have hwq : .waitQueue ∉ i.ready := by
      intro hwq
      apply hnot
      unfold simpleBlock1Needs
      split
      · exact List.cons_subset.mpr ⟨h.order.mem hwq,
          List.cons_subset.mpr ⟨hwq, List.nil_subset _⟩⟩
      · exact List.nil_subset _
    have hcommand : Block1Command k := by
      by_cases hcommand : Block1Command k
      · exact hcommand
      · unfold simpleBlock1Needs at hnot
        rw [if_neg hcommand] at hnot
        exact absurd (List.nil_subset _) hnot
    obtain ⟨g, l, hst, huses⟩ := simpleBlock1_second hhz c.calls.length hcommand
    refine ⟨[⟨false, 0⟩], (⟨false, 0⟩ : SimpleBlock1.Env), g, l, ?_, ?_⟩
    · rw [h.untouched.resolve_left hwq]
      exact run_single hst
    · intro hsubset
      have hmem : .waitQueue ∈ simpleBlock1Uses l := by
        rw [huses]
        exact List.mem_cons_self
      exact hwq (hsubset hmem)

/-! ## The four modules -/

inductive Module where
  | ch3
  | ch4
  | simpleSpin
  | simpleBlock1
deriving DecidableEq, Repr

/-- The module as a device. -/
def device (hz : Nat) : Module → Device Part
  | .ch3 => ch3
  | .ch4 => ch4
  | .simpleSpin => simpleSpin
  | .simpleBlock1 => simpleBlock1 hz

/-- What an ioctl on it needs from the start: all that the init function sets
up for a command that the module knows, only the list head for
`CH4_IOCTL_READ`, and nothing for any other number. -/
def needs (hz : Nat) : (m : Module) → (device hz m).Args → List Part
  | .ch3 => ch3Needs
  | .ch4 => ch4Needs
  | .simpleSpin => simpleSpinNeeds
  | .simpleBlock1 => simpleBlock1Needs

theorem device_guarded {hz : Nat} (hhz : 0 < hz) (m : Module) :
    ∃ J, Guarded (device hz m) (needs hz m) J := by
  cases m with
  | ch3 => exact ⟨_, ch3_guarded⟩
  | ch4 => exact ⟨_, ch4_guarded⟩
  | simpleSpin => exact ⟨_, simpleSpin_guarded⟩
  | simpleBlock1 => exact ⟨_, simpleBlock1_guarded hhz⟩

/-- In every interleaving of a module's init function with ioctls in which no
ioctl is issued before what it needs was set up, nothing is ever used before
it is set up; and an ioctl that is issued earlier can go on alone until it
uses something that is not set up. -/
theorem ready_before_use {hz : Nat} (hhz : 0 < hz) (m : Module)
    {evs : List (device hz m).Event} {s : (device hz m).Loading}
    (hrun : run (device hz m).load (device hz m).begin evs = some s)
    (hin : Along (device hz m).load ((device hz m).InTime (needs hz m))
      (device hz m).begin evs) :
    Throughout (device hz m).load (fun s => s.premature = false)
        (device hz m).begin evs ∧
      ∀ (k : (device hz m).Args) (t : (device hz m).Loading),
        ¬ (device hz m).InTime (needs hz m) s (.issue k) →
        (device hz m).load s (.issue k) = some t →
        ∃ (os : List (device hz m).Choice) (u : (device hz m).Loading),
          run (device hz m).load t
              (os.map (Device.Event.advance s.pool.calls.length)) = some u ∧
            u.premature = true := by
  obtain ⟨J, hJ⟩ := device_guarded hhz m
  exact ⟨hJ.throughout hin, fun k t hnot hst => hJ.early hrun hin hnot hst⟩

/-- A message of zeros. -/
def blank : Ch3Queue.MsgSt := Vector.replicate 132 0

/-- A `ch4_read` is issued and tests the list before the lock was set up. -/
def readyListRun : List (device 100 .ch4).Event :=
  [ .init true, .init true, .init true, .init true, .init true
  , .issue (⟨Ch4Queue.ch4IoctlRead, blank⟩ : Ch4Queue.Ioctl)
  , .advance 0 (⟨false, 0, false, blank⟩ : Ch4Queue.Outcome)
  , .init true ]

theorem ready_before_use_readyListRun :
    Throughout (device 100 .ch4).load (fun s => s.premature = false)
      (device 100 .ch4).begin readyListRun := by
  have hsome : (run (device 100 .ch4).load (device 100 .ch4).begin
      readyListRun).isSome = true := by
    decide +kernel
  obtain ⟨s, hrun⟩ := Option.isSome_iff_exists.mp hsome
  exact (ready_before_use (by decide) .ch4 hrun (by decide +kernel)).1

/-- The init function has called `cdev_add` and nothing after it. -/
def added (D : Device Part) : List D.Event :=
  [.init true, .init true, .init true, .init true]

/-- A process reads from `ch3`. -/
def earlyCh3Run : List (device 100 .ch3).Event :=
  added ch3 ++
    [ .issue (⟨Ch3Queue.ch3IoctlRead, blank⟩ : Ch3Queue.Ioctl)
    , .advance 0 (⟨0, false, blank⟩ : Ch3Queue.Outcome) ]

/-- A process reads from `ch4`. -/
def earlyCh4Run : List (device 100 .ch4).Event :=
  added ch4 ++
    [ .issue (⟨Ch4Queue.ch4IoctlRead, blank⟩ : Ch4Queue.Ioctl)
    , .advance 0 (⟨false, 0, false, blank⟩ : Ch4Queue.Outcome) ]

/-- A process reads from `simple_spin`. -/
def earlySpinRun : List (device 100 .simpleSpin).Event :=
  added simpleSpin ++
    [ .issue (⟨SimpleSpin.simpleSpinReadCmd, blank⟩ : SimpleSpin.Ioctl)
    , .advance 0 (0 : Nat) ]

/-- A process waits on `simple_block_1`. -/
def earlyBlock1Run : List (device 100 .simpleBlock1).Event :=
  added (simpleBlock1 100) ++
    [ .issue (⟨SimpleBlock1.wq, 0⟩ : SimpleBlock1.Ioctl)
    , .advance 0 (⟨false, 0⟩ : SimpleBlock1.Env)
    , .advance 0 (⟨false, 0⟩ : SimpleBlock1.Env) ]

/-- Each of them uses what is not set up yet. -/
theorem earlyRuns_premature :
    (run (device 100 .ch3).load (device 100 .ch3).begin earlyCh3Run).map
        (·.premature) = some true ∧
      (run (device 100 .ch4).load (device 100 .ch4).begin earlyCh4Run).map
        (·.premature) = some true ∧
      (run (device 100 .simpleSpin).load (device 100 .simpleSpin).begin
        earlySpinRun).map (·.premature) = some true ∧
      (run (device 100 .simpleBlock1).load (device 100 .simpleBlock1).begin
        earlyBlock1Run).map (·.premature) = some true := by
  refine ⟨?_, ?_, ?_, ?_⟩ <;> decide +kernel

end EmbeddedSystem.Labs.DeviceInit
