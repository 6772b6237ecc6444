import EmbeddedSystem.Labs.Ch3Linear
import EmbeddedSystem.Labs.Ch4Queue
import EmbeddedSystem.Labs.SimpleBlock1
import EmbeddedSystem.Labs.SimpleBlock2
import EmbeddedSystem.Verified.ModuleRef

/-!
# Exit functions under open files

`ch3`, `simple_block_1` and `simple_block_2` name no owner, neither in their
`cdev` nor in their `file_operations`, so their files do not hold them, and
their exit functions neither take a lock nor look for callers.  What keeps
them apart from their callers is the order of events alone
(`exit_alone_iff`).  `ch4` names `THIS_MODULE` in both places and needs no
such order (`ch4_exit_alone`).
-/

set_option autoImplicit false

namespace EmbeddedSystem.Labs.DeviceExit

open EmbeddedSystem.Verified
open EmbeddedSystem.Verified.Transition
open EmbeddedSystem.Verified.ModuleRef
open EmbeddedSystem.Verified.WaitQueue (Phase wakeUpInterruptible)

/-! ## `list_for_each_safe` over the message list -/

/-- The next statement of the loop that frees the list.  `pos` is the node it
is at and `q` the one after it; `none` is the list head. -/
inductive SweepPc where
  | first
  | del (pos : Nat) (q : Option Nat)
  | freeMsg (pos : Nat) (q : Option Nat)
  | freeNode (pos : Nat) (q : Option Nat)
  | next (q : Option Nat)
  | done
deriving DecidableEq, Repr

section Sweep

variable {β α : Type} (ptr : β → Option Nat)

/-- `pos = p, q = pos->next`.  The links of a node that is not in the list
any more are poisoned. -/
def visit (h : NodeHeap β α) : Option Nat → Option SweepPc
  | none => some .done
  | some p =>
      if p ∈ h.queue then
        some (.del p ((h.queue.dropWhile (· != p)).drop 1).head?)
      else none

/-- One statement of the loop. -/
def sweep (h : NodeHeap β α) : SweepPc → Option (NodeHeap β α × SweepPc)
  | .first => (visit h h.queue.head?).map (h, ·)
  | .del p q =>
      some ({ h with nodes := h.nodes.touch p, queue := h.queue.erase p },
        .freeMsg p q)
  | .freeMsg p q =>
      some ({ h with
          nodes := h.nodes.touch p
          bufs :=
            match h.buf ptr p with
            | none => h.bufs
            | some b => h.bufs.kfree b },
        .freeNode p q)
  | .freeNode p q => some ({ h with nodes := h.nodes.kfree p }, .next q)
  | .next q => (visit h q).map (h, ·)
  | .done => none

end Sweep

/-! ## The exit functions -/

/-- The next statement of an exit function. -/
inductive ExitPc where
  | wakeUp
  | sweep (p : SweepPc)
  | cdevDel
  | unregister
  | returned
deriving DecidableEq, Repr

/-- `cdev_del` has run. -/
def ExitPc.deviceGone : ExitPc → Bool
  | .unregister => true
  | .returned => true
  | _ => false

/-- The statements that all four functions end with. -/
def ExitPc.unhook : ExitPc → Option ExitPc
  | .cdevDel => some .unregister
  | .unregister => some .returned
  | _ => none

/-- `ch3_exit` -/
def ch3Exit (g : Ch3Queue.Ch3) : ExitPc → Option (Ch3Queue.Ch3 × ExitPc)
  | .sweep .done => some (g, .cdevDel)
  | .sweep p =>
      (sweep Ch3Queue.MsgList.msg g.heap p).map fun (h, p') =>
        ({ g with nodes := h.nodes, msgs := h.bufs, msgListHead := h.queue },
          .sweep p')
  | pc => pc.unhook.map (g, ·)

/-- `simple_block_1_exit` -/
def simpleBlock1Exit (g : SimpleBlock1.Block1) (pc : ExitPc) :
    Option (SimpleBlock1.Block1 × ExitPc) := pc.unhook.map (g, ·)

/-- `simple_block_2_exit` -/
def simpleBlock2Exit (g : SimpleBlock2.Block2) (pc : ExitPc) :
    Option (SimpleBlock2.Block2 × ExitPc) := pc.unhook.map (g, ·)

/-- `ch4_exit` -/
def ch4Exit (g : Ch4Queue.Ch4) : ExitPc → Option (Ch4Queue.Ch4 × ExitPc)
  | .wakeUp =>
      some ({ g with myWq := wakeUpInterruptible g.myWq }, .sweep .first)
  | .sweep .done => some (g, .cdevDel)
  | .sweep p =>
      (sweep Ch4Queue.MsgList.msg ⟨g.nodes, g.msgs, g.msgListHead⟩ p).map
        fun (h, p') =>
          ({ g with nodes := h.nodes, msgs := h.bufs, msgListHead := h.queue },
            .sweep p')
  | pc => pc.unhook.map (g, ·)

/-! ## Calls that have ended, calls that are asleep -/

theorem ch3Step_running {g : Ch3Queue.Ch3} {i : Nat} {l : Ch3Queue.Call}
    {o : Ch3Queue.Outcome} {r : Ch3Queue.Ch3 × Ch3Queue.Call}
    (h : Ch3Queue.ch3Step g i l o = some r) : l.ended = false := by
  cases hend : l.ended with
  | false => rfl
  | true =>
      rw [Ch3Queue.ch3Step_ended hend] at h
      cases h

def asleepAt : Phase → Bool
  | .asleep => true
  | _ => false

def block1Asleep (l : SimpleBlock1.Call) : Bool :=
  match l.pc with
  | .wait p => asleepAt p
  | .waitInterruptible p => asleepAt p
  | .waitTimeout p _ => asleepAt p
  | _ => false

theorem block1Asleep_running {l : SimpleBlock1.Call}
    (h : block1Asleep l = true) : SimpleBlock1.ended l = false := by
  unfold block1Asleep at h
  unfold SimpleBlock1.ended
  split
  case h_1 hpc =>
    rw [hpc] at h
    cases h
  case h_2 => rfl

theorem simpleBlock1Step_running {g : SimpleBlock1.Block1} {i : Nat}
    {l : SimpleBlock1.Call} {o : SimpleBlock1.Env}
    {r : SimpleBlock1.Block1 × SimpleBlock1.Call}
    (h : SimpleBlock1.simpleBlock1Step g i l o = some r) :
    SimpleBlock1.ended l = false := by
  unfold SimpleBlock1.ended
  split
  case h_1 hpc => simp [SimpleBlock1.simpleBlock1Step, hpc] at h
  case h_2 => rfl

def block2Ended (l : SimpleBlock2.Call) : Bool :=
  match l.pc with
  | .returned _ => true
  | _ => false

def block2Asleep (l : SimpleBlock2.Call) : Bool :=
  match l.pc with
  | .wait p => asleepAt p
  | _ => false

theorem block2Asleep_running {l : SimpleBlock2.Call}
    (h : block2Asleep l = true) : block2Ended l = false := by
  unfold block2Asleep at h
  unfold block2Ended
  split
  case h_1 hpc =>
    rw [hpc] at h
    cases h
  case h_2 => rfl

theorem simpleBlock2Step_running {g : SimpleBlock2.Block2} {i : Nat}
    {l : SimpleBlock2.Call} {signal : Bool}
    {r : SimpleBlock2.Block2 × SimpleBlock2.Call}
    (h : SimpleBlock2.simpleBlock2Step g i l signal = some r) :
    block2Ended l = false := by
  unfold block2Ended
  split
  case h_1 hpc => simp [SimpleBlock2.simpleBlock2Step, hpc] at h
  case h_2 => rfl

def ch4Ended : Ch4Queue.Call → Bool
  | .read r =>
      match r.pc with
      | .returned _ => true
      | _ => false
  | .write w =>
      match w.pc with
      | .returned _ => true
      | _ => false
  | .invalid _ => true

def ch4Asleep : Ch4Queue.Call → Bool
  | .read r =>
      match r.pc with
      | .wait p => asleepAt p
      | _ => false
  | _ => false

theorem ch4Asleep_running {l : Ch4Queue.Call} (h : ch4Asleep l = true) :
    ch4Ended l = false := by
  cases l with
  | read r =>
      simp only [ch4Asleep] at h
      simp only [ch4Ended]
      split
      case h_1 hpc =>
        rw [hpc] at h
        cases h
      case h_2 => rfl
  | write w => cases h
  | invalid code => cases h

theorem ch4Step_running {g : Ch4Queue.Ch4} {i : Nat} {l : Ch4Queue.Call}
    {o : Ch4Queue.Outcome} {r : Ch4Queue.Ch4 × Ch4Queue.Call}
    (h : Ch4Queue.ch4Step g i l o = some r) : ch4Ended l = false := by
  cases l with
  | read s =>
      simp only [ch4Ended]
      split
      case h_1 hpc => simp [Ch4Queue.ch4Step, Ch4Queue.ch4Read, hpc] at h
      case h_2 => rfl
  | write w =>
      simp only [ch4Ended]
      split
      case h_1 hpc => simp [Ch4Queue.ch4Step, Ch4Queue.ch4Write, hpc] at h
      case h_2 => rfl
  | invalid code => cases h

/-! ## The drivers -/

/-- `ch3_fops` and the `cdev` of `ch3_init` name no owner. -/
def ch3 : Driver where
  Shared := Ch3Queue.Ch3
  Local := Ch3Queue.Call
  Args := Ch3Queue.Ioctl
  Choice := Ch3Queue.Outcome
  ExitPc := ExitPc
  owners := 0
  shared := Ch3Queue.ch3Init
  enter := Ch3Queue.ch3Ioctl
  body := Ch3Queue.ch3Step
  ended := Ch3Queue.Call.ended
  body_ended := ch3Step_running
  asleep := fun _ => false
  asleep_ended := fun h => by cases h
  exitFirst := .sweep .first
  exitStep := ch3Exit
  deviceGone := ExitPc.deviceGone

/-- Nor do `simple_block_1_fops` and its `cdev`; `hz` is `HZ`. -/
def simpleBlock1 (hz : Nat) : Driver where
  Shared := SimpleBlock1.Block1
  Local := SimpleBlock1.Call
  Args := SimpleBlock1.Ioctl
  Choice := SimpleBlock1.Env
  ExitPc := ExitPc
  owners := 0
  shared := SimpleBlock1.simpleBlock1Init
  enter := SimpleBlock1.simpleBlock1Ioctl hz
  body := SimpleBlock1.simpleBlock1Step
  ended := SimpleBlock1.ended
  body_ended := simpleBlock1Step_running
  asleep := block1Asleep
  asleep_ended := block1Asleep_running
  exitFirst := .cdevDel
  exitStep := simpleBlock1Exit
  deviceGone := ExitPc.deviceGone

/-- Nor do `simple_block_2_fops` and its `cdev`. -/
def simpleBlock2 : Driver where
  Shared := SimpleBlock2.Block2
  Local := SimpleBlock2.Call
  Args := SimpleBlock2.Ioctl
  Choice := Bool
  ExitPc := ExitPc
  owners := 0
  shared := SimpleBlock2.simpleBlock2Init
  enter := SimpleBlock2.simpleBlock2Ioctl
  body := SimpleBlock2.simpleBlock2Step
  ended := block2Ended
  body_ended := simpleBlock2Step_running
  asleep := block2Asleep
  asleep_ended := block2Asleep_running
  exitFirst := .cdevDel
  exitStep := simpleBlock2Exit
  deviceGone := ExitPc.deviceGone

/-- `ch4_fops.owner` and `cd_cdev->owner` are both `THIS_MODULE`. -/
def ch4 : Driver where
  Shared := Ch4Queue.Ch4
  Local := Ch4Queue.Call
  Args := Ch4Queue.Ioctl
  Choice := Ch4Queue.Outcome
  ExitPc := ExitPc
  owners := 2
  shared := Ch4Queue.ch4Init
  enter := Ch4Queue.ch4Ioctl
  body := Ch4Queue.ch4Step
  ended := ch4Ended
  body_ended := ch4Step_running
  asleep := ch4Asleep
  asleep_ended := ch4Asleep_running
  exitFirst := .wakeUp
  exitStep := ch4Exit
  deviceGone := ExitPc.deviceGone

/-! ## The results -/

/-- `ch4_exit` is alone in every run. -/
theorem ch4_exit_alone (evs : List ch4.Event) :
    Throughout ch4.use ch4.Alone ch4.begin evs :=
  Driver.alone_of_owner (by decide)

/-- The modules that name no owner. -/
inductive Unowned where
  | ch3
  | simpleBlock1
  | simpleBlock2
deriving DecidableEq, Repr

def driver (hz : Nat) : Unowned → Driver
  | .ch3 => ch3
  | .simpleBlock1 => simpleBlock1 hz
  | .simpleBlock2 => simpleBlock2

/-- Let files be opened, used and closed in any order with the removal of the
module.  Its exit function is alone throughout, that is, no file is open
beside it and no ioctl is in progress, asleep or able to take a step, if and
only if the module is removed only when no file is open and its device is not
opened while the exit function runs. -/
theorem exit_alone_iff (hz : Nat) (m : Unowned)
    {evs : List (driver hz m).Event} {s : (driver hz m).State}
    (hrun : run (driver hz m).use (driver hz m).begin evs = some s) :
    Throughout (driver hz m).use (driver hz m).Alone (driver hz m).begin evs ↔
      Along (driver hz m).use (driver hz m).InOrder (driver hz m).begin evs :=
  Driver.alone_iff_inOrder hrun

/-- A file is opened, a unit is added through it, the file is closed and the
module is removed. -/
def closedFirstRun : List (driver 100 .simpleBlock1).Event :=
  [ .chrdevOpen
  , .ioctl 0 (⟨SimpleBlock1.wqWakeUp, 1⟩ : SimpleBlock1.Ioctl)
  , .advance 0 (⟨false, 0⟩ : SimpleBlock1.Env)
  , .advance 0 (⟨false, 0⟩ : SimpleBlock1.Env)
  , .advance 0 (⟨false, 0⟩ : SimpleBlock1.Env)
  , .release 0, .deleteModule, .exit, .exit ]

theorem exit_alone_iff_closedFirstRun :
    Throughout (driver 100 .simpleBlock1).use (driver 100 .simpleBlock1).Alone
      (driver 100 .simpleBlock1).begin closedFirstRun := by
  have hsome : (run (driver 100 .simpleBlock1).use
      (driver 100 .simpleBlock1).begin closedFirstRun).isSome = true := by
    decide +kernel
  obtain ⟨s, hrun⟩ := Option.isSome_iff_exists.mp hsome
  exact (exit_alone_iff 100 .simpleBlock1 hrun).mpr (by decide +kernel)

/-- A message of zeros. -/
def zeros : Ch3Queue.MsgSt := Vector.replicate 132 0

/-- A writer is about to append its node when `ch3` is removed. -/
def openCh3Run : List (driver 100 .ch3).Event :=
  [ .chrdevOpen
  , .ioctl 0 (⟨Ch3Queue.ch3IoctlWrite, zeros⟩ : Ch3Queue.Ioctl)
  , .advance 0 (⟨0, false, zeros⟩ : Ch3Queue.Outcome)
  , .advance 0 (⟨0, false, zeros⟩ : Ch3Queue.Outcome)
  , .advance 0 (⟨0, false, zeros⟩ : Ch3Queue.Outcome)
  , .deleteModule, .exit, .exit, .exit, .exit
  , .advance 0 (⟨0, false, zeros⟩ : Ch3Queue.Outcome) ]

/-- A consumer of `simple_block_1` goes to sleep, and the module is
removed. -/
def openBlock1Run : List (driver 100 .simpleBlock1).Event :=
  [ .chrdevOpen
  , .ioctl 0 (⟨SimpleBlock1.wq, 0⟩ : SimpleBlock1.Ioctl)
  , .advance 0 (⟨false, 0⟩ : SimpleBlock1.Env)
  , .advance 0 (⟨false, 0⟩ : SimpleBlock1.Env)
  , .advance 0 (⟨false, 0⟩ : SimpleBlock1.Env)
  , .deleteModule ]

/-- So does one of `simple_block_2`. -/
def openBlock2Run : List (driver 100 .simpleBlock2).Event :=
  [ .chrdevOpen
  , .ioctl 0 (⟨SimpleBlock2.wq, 0⟩ : SimpleBlock2.Ioctl)
  , .advance 0 false, .advance 0 false, .advance 0 false
  , .deleteModule ]

/-- How far the exit function is, the files, and the list. -/
def ch3View (s : (driver 100 .ch3).State) :
    Option ExitPc × List Bool × List Nat :=
  (s.exit, s.files, s.pool.shared.msgListHead)

/-- How far the exit function is, the files, and who sleeps. -/
def block1View (s : (driver 100 .simpleBlock1).State) :
    Option ExitPc × List Bool × List Bool :=
  (s.exit, s.files, s.pool.calls.map fun l => block1Asleep l.2)

def block2View (s : (driver 100 .simpleBlock2).State) :
    Option ExitPc × List Bool × List Bool :=
  (s.exit, s.files, s.pool.calls.map fun l => block2Asleep l.2)

/-- The writer's node is in the list after `ch3_exit` has returned, and the
consumers are asleep when the exit functions begin. -/
theorem openRuns_notAlone :
    (∃ s, run (driver 100 .ch3).use (driver 100 .ch3).begin openCh3Run =
        some s ∧ ch3View s = (some .returned, [true], [0]) ∧
        ¬ (driver 100 .ch3).Alone s) ∧
      (∃ s, run (driver 100 .simpleBlock1).use
          (driver 100 .simpleBlock1).begin openBlock1Run = some s ∧
        block1View s = (some .cdevDel, [true], [true]) ∧
        ¬ (driver 100 .simpleBlock1).Alone s) ∧
      ∃ s, run (driver 100 .simpleBlock2).use
          (driver 100 .simpleBlock2).begin openBlock2Run = some s ∧
        block2View s = (some .cdevDel, [true], [true]) ∧
        ¬ (driver 100 .simpleBlock2).Alone s := by
  refine ⟨?_, ?_, ?_⟩
  · have hend : (run (driver 100 .ch3).use (driver 100 .ch3).begin
        openCh3Run).map ch3View = some (some .returned, [true], [0]) := by
      decide +kernel
    obtain ⟨s, hrun, hs⟩ := Option.map_eq_some_iff.mp hend
    have hexit : s.exit.isSome := congrArg (fun v => v.1.isSome) hs
    have hfiles : s.files = [true] := congrArg (fun v => v.2.1) hs
    refine ⟨s, hrun, hs, fun halone => halone.closed hexit ?_⟩
    rw [hfiles]
    exact List.mem_cons_self
  · have hend : (run (driver 100 .simpleBlock1).use
        (driver 100 .simpleBlock1).begin openBlock1Run).map block1View =
          some (some .cdevDel, [true], [true]) := by
      decide +kernel
    obtain ⟨s, hrun, hs⟩ := Option.map_eq_some_iff.mp hend
    have hexit : s.exit.isSome := congrArg (fun v => v.1.isSome) hs
    have hfiles : s.files = [true] := congrArg (fun v => v.2.1) hs
    refine ⟨s, hrun, hs, fun halone => halone.closed hexit ?_⟩
    rw [hfiles]
    exact List.mem_cons_self
  · have hend : (run (driver 100 .simpleBlock2).use
        (driver 100 .simpleBlock2).begin openBlock2Run).map block2View =
          some (some .cdevDel, [true], [true]) := by
      decide +kernel
    obtain ⟨s, hrun, hs⟩ := Option.map_eq_some_iff.mp hend
    have hexit : s.exit.isSome := congrArg (fun v => v.1.isSome) hs
    have hfiles : s.files = [true] := congrArg (fun v => v.2.1) hs
    refine ⟨s, hrun, hs, fun halone => halone.closed hexit ?_⟩
    rw [hfiles]
    exact List.mem_cons_self

end EmbeddedSystem.Labs.DeviceExit
