import EmbeddedSystem.Verified.CallPool
import EmbeddedSystem.Verified.Long
import EmbeddedSystem.Verified.WaitQueue

/-!
# The unit counter of `simple_block_1.c`

Producers add units to `my_data` and wake the wait queue; consumers wait with
one of three macros until `my_data > 0` and then take one unit in a critical
section of their own.  Every ioctl is a call of a `CallPool`, as in
`simple_block_2.c`.

When the ioctls run one after another, each of them is one step of a smaller
machine (`sequentialStep`), whose only choice is what ends a wait that finds
no unit; `alone_sequential` says that a call on its own does nothing else.
The three waits share the decrement, and only a negative result keeps a call
from it.  But `wait_event_interruptible_timeout` returns 0 when its time is
up, so a consumer that has waited in vain takes a unit that is not there
(`honest_iff_covered`).
-/

set_option autoImplicit false

namespace EmbeddedSystem.Labs.SimpleBlock1

open EmbeddedSystem.Verified
open EmbeddedSystem.Verified.Uaccess
open EmbeddedSystem.Verified.WaitQueue
open EmbeddedSystem.Verified.Transition
open EmbeddedSystem.Verified.Long

/-! ## `simple_block_1.h` -/

/-- `'z'` -/
def simpleIoctlNum : Nat := 0x7a

def ioctlStartNum : Nat := 0x80

/-- `_IOWR(SIMPLE_IOCTL_NUM, IOCTL_NUM1, unsigned long)` and so on. -/
def wq : Nat := iowr simpleIoctlNum (ioctlStartNum + 1) 8
def wqInterruptible : Nat := iowr simpleIoctlNum (ioctlStartNum + 2) 8
def wqInterruptibleTimeout : Nat := iowr simpleIoctlNum (ioctlStartNum + 3) 8
def wqWakeUp : Nat := iowr simpleIoctlNum (ioctlStartNum + 4) 8

/-! ## State -/

/-- The module's globals.  `produced` sums the amounts added so far and
`consumed` counts the decrements; no code reads them. -/
structure Block1 where
  myData : BitVec 64
  myWq : Queue
  produced : Int
  consumed : Nat
deriving DecidableEq, Repr

/-- After `simple_block_1_init`. -/
def simpleBlock1Init : Block1 := ⟨0, [], 0, 0⟩

/-- The next statement of an ioctl; a timed wait has `left` jiffies left. -/
inductive Pc where
  | wait (p : Phase)
  | waitInterruptible (p : Phase)
  | waitTimeout (p : Phase) (left : Nat)
  | decrement
  | increment
  | wake
  | readBack
  | returned (code : Int)
deriving DecidableEq, Repr

/-- The arguments of `simple_block_1_ioctl`. -/
structure Ioctl where
  cmd : Nat
  arg : BitVec 64
deriving DecidableEq, Repr

/-- A call of `simple_block_1_ioctl`. -/
structure Call where
  ioctl : Ioctl
  pc : Pc
deriving DecidableEq, Repr

/-- What the environment decides in a step of a wait: whether a signal is
pending, and how long a sleeper sleeps. -/
structure Env where
  signal : Bool
  elapsed : Nat
deriving DecidableEq, Repr

/-- The cases of the `switch`; `hz` is `HZ`. -/
def simpleBlock1Ioctl (hz : Nat) (k : Ioctl) : Call :=
  if k.cmd = wq then ⟨k, .wait .entry⟩
  else if k.cmd = wqInterruptible then ⟨k, .waitInterruptible .entry⟩
  else if k.cmd = wqInterruptibleTimeout then
    ⟨k, .waitTimeout .entry (2 * hz)⟩
  else if k.cmd = wqWakeUp then ⟨k, .increment⟩
  else ⟨k, .returned (-einval)⟩

/-- `my_data > 0` -/
def available (g : Block1) : Bool := 0 < g.myData.toInt

/-- `my_data--` -/
def take (g : Block1) : Block1 :=
  { g with myData := g.myData - 1, consumed := g.consumed + 1 }

/-- `my_data = my_data + (long)arg` -/
def add (g : Block1) (arg : BitVec 64) : Block1 :=
  { g with myData := g.myData + arg, produced := g.produced + arg.toInt }

/-- `if(ret < 0) return ret;` after a wait -/
def afterWait (ret : Int) : Pc := if ret < 0 then .returned ret else .decrement

/-- One step of call `i`. -/
def simpleBlock1Step (g : Block1) (i : Nat) (l : Call) (o : Env) :
    Option (Block1 × Call) :=
  match l.pc with
  | .wait p =>
      match waitEvent g.myWq i (available g) p with
      | none => none
      | some (q, .again p') =>
          some ({ g with myWq := q }, { l with pc := .wait p' })
      | some (q, .done _) =>
          some ({ g with myWq := q }, { l with pc := .decrement })
  | .waitInterruptible p =>
      match waitEventInterruptible g.myWq i false (available g) o.signal p with
      | none => none
      | some (q, .again p') =>
          some ({ g with myWq := q }, { l with pc := .waitInterruptible p' })
      | some (q, .done ret) =>
          some ({ g with myWq := q }, { l with pc := afterWait ret })
  | .waitTimeout p left =>
      match waitEventInterruptibleTimeout g.myWq i (available g) o.signal left
          o.elapsed p with
      | none => none
      | some (q, .again p', left') =>
          some ({ g with myWq := q }, { l with pc := .waitTimeout p' left' })
      | some (q, .done ret, _) =>
          some ({ g with myWq := q }, { l with pc := afterWait ret })
  | .decrement => some (take g, { l with pc := .readBack })
  | .increment => some (add g l.ioctl.arg, { l with pc := .wake })
  | .wake => some ({ g with myWq := wakeUp g.myWq }, { l with pc := .readBack })
  | .readBack => some (g, { l with pc := .returned g.myData.toInt })
  | .returned _ => none

/-- The call has returned. -/
def ended (l : Call) : Bool :=
  match l.pc with
  | .returned _ => true
  | _ => false

abbrev Conf := CallPool.Conf Block1 Call

/-! ## One ioctl after another -/

/-- What ends a wait that finds no unit. -/
inductive WaitEnd where
  | signal
  | timeout
deriving DecidableEq, Repr

/-- What `wait_event_interruptible` returns to a call on its own. -/
def interruptibleResult (cond : Bool) : Int := if cond then 0 else -erestartsys

/-- And `wait_event_interruptible_timeout`. -/
def timeoutResult (cond : Bool) (e : WaitEnd) : Int :=
  if cond then 1 else if e = .signal then -erestartsys else 0

/-- The rest of the ioctl after a wait that returned `ret`. -/
def consume (g : Block1) (ret : Int) : Block1 × Int :=
  if ret < 0 then (g, ret) else (take g, (take g).myData.toInt)

/-- `simple_block_1_ioctl` while no other call is under way: the state after
it and the value returned.  A plain wait that finds no unit never ends. -/
def ioctlAlone (g : Block1) (k : Ioctl) (e : WaitEnd) :
    Option (Block1 × Int) :=
  if k.cmd = wq then if available g then some (consume g 0) else none
  else if k.cmd = wqInterruptible then
    some (consume g (interruptibleResult (available g)))
  else if k.cmd = wqInterruptibleTimeout then
    some (consume g (timeoutResult (available g) e))
  else if k.cmd = wqWakeUp then
    some (add g k.arg, (add g k.arg).myData.toInt)
  else some (g, -einval)

/-- A whole ioctl as one step. -/
def sequentialStep (g : Block1) (a : Ioctl × WaitEnd) : Option Block1 :=
  (ioctlAlone g a.1 a.2).map Prod.fst

/-! ### A call on its own -/

/-- The same but for the wait queue. -/
def SameUnits (g g' : Block1) : Prop :=
  g'.myData = g.myData ∧ g'.produced = g.produced ∧ g'.consumed = g.consumed

theorem SameUnits.refl (g : Block1) : SameUnits g g := ⟨rfl, rfl, rfl⟩

theorem SameUnits.available_eq {g g' : Block1} (h : SameUnits g g') :
    available g' = available g := by
  unfold available
  rw [h.1]

theorem SameUnits.take {g g' : Block1} (h : SameUnits g g') :
    SameUnits (take g) (SimpleBlock1.take g') := by
  refine ⟨?_, h.2.1, ?_⟩
  · show g'.myData - 1 = g.myData - 1
    rw [h.1]
  · show g'.consumed + 1 = g.consumed + 1
    rw [h.2.2]

theorem SameUnits.add {g g' : Block1} (h : SameUnits g g')
    (arg : BitVec 64) : SameUnits (add g arg) (SimpleBlock1.add g' arg) := by
  refine ⟨?_, ?_, h.2.2⟩
  · show g'.myData + arg = g.myData + arg
    rw [h.1]
  · show g'.produced + arg.toInt = g.produced + arg.toInt
    rw [h.2.1]

/-- How far a call has got that was issued in state `g0` and runs alone: `g`
is the state now.  Once the wait is over, `ioctlAlone` gives the rest. -/
def Underway (g0 : Block1) (k : Ioctl) (g : Block1) : Pc → Prop
  | .wait _ => k.cmd = wq ∧ SameUnits g0 g
  | .waitInterruptible _ => k.cmd = wqInterruptible ∧ SameUnits g0 g
  | .waitTimeout _ _ => k.cmd = wqInterruptibleTimeout ∧ SameUnits g0 g
  | .decrement => SameUnits g0 g ∧
      ∃ e, ioctlAlone g0 k e = some (take g0, (take g0).myData.toInt)
  | .increment => k.cmd = wqWakeUp ∧ SameUnits g0 g
  | .wake => k.cmd = wqWakeUp ∧ SameUnits (add g0 k.arg) g
  | .readBack =>
      ∃ e g', ioctlAlone g0 k e = some (g', g'.myData.toInt) ∧ SameUnits g' g
  | .returned code =>
      ∃ e g', ioctlAlone g0 k e = some (g', code) ∧ SameUnits g' g

theorem enter_underway (hz : Nat) {g0 g : Block1} (k : Ioctl)
    (hsame : SameUnits g0 g) :
    (simpleBlock1Ioctl hz k).ioctl = k ∧
      Underway g0 k g (simpleBlock1Ioctl hz k).pc := by
  unfold simpleBlock1Ioctl
  by_cases h1 : k.cmd = wq
  · rw [if_pos h1]
    exact ⟨rfl, h1, hsame⟩
  rw [if_neg h1]
  by_cases h2 : k.cmd = wqInterruptible
  · rw [if_pos h2]
    exact ⟨rfl, h2, hsame⟩
  rw [if_neg h2]
  by_cases h3 : k.cmd = wqInterruptibleTimeout
  · rw [if_pos h3]
    exact ⟨rfl, h3, hsame⟩
  rw [if_neg h3]
  by_cases h4 : k.cmd = wqWakeUp
  · rw [if_pos h4]
    exact ⟨rfl, h4, hsame⟩
  rw [if_neg h4]
  refine ⟨rfl, .signal, g0, ?_, hsame⟩
  rw [ioctlAlone, if_neg h1, if_neg h2, if_neg h3, if_neg h4]

/-- The end of a wait, with a result that `ioctlAlone` has for some reason of
its end. -/
theorem underway_afterWait {g0 g : Block1} {k : Ioctl} {ret : Int} (ret' : Int)
    (hsame : SameUnits g0 g) (hsign : ret < 0 ↔ ret' < 0)
    (hneg : ret < 0 → ret = ret')
    (h : ∃ e, ioctlAlone g0 k e = some (consume g0 ret')) :
    Underway g0 k g (afterWait ret) := by
  obtain ⟨e, he⟩ := h
  unfold consume at he
  unfold afterWait
  by_cases hlt : ret < 0
  · rw [if_pos (hsign.mp hlt), ← hneg hlt] at he
    rw [if_pos hlt]
    exact ⟨e, g0, he, hsame⟩
  · rw [if_neg fun h => hlt (hsign.mpr h)] at he
    rw [if_neg hlt]
    exact ⟨hsame, e, he⟩

/-- The end of `wait_event_interruptible`. -/
theorem underway_interruptible {g0 g : Block1} {k : Ioctl} {i : Nat}
    {signal : Bool} {p : Phase} {q : Queue} {ret : Int}
    (hcmd : k.cmd = wqInterruptible) (hsame : SameUnits g0 g)
    (hw : waitEventInterruptible g.myWq i false (available g) signal p =
      some (q, .done ret)) :
    Underway g0 k { g with myWq := q } (afterWait ret) := by
  have halone : ∀ e, ioctlAlone g0 k e =
      some (consume g0 (interruptibleResult (available g0))) := by
    intro e
    rw [ioctlAlone, hcmd, if_neg (by decide), if_pos rfl]
  apply underway_afterWait _ hsame Iff.rfl (fun _ => rfl)
  refine ⟨.signal, ?_⟩
  rw [halone, ← hsame.available_eq]
  rcases waitEventInterruptible_done hw with ⟨hzero, hcond⟩ | hneg
  · rw [hcond, hzero]
    rfl
  · rw [hneg] at hw
    rw [cond_of_interrupted hw, hneg]
    rfl

/-- The end of `wait_event_interruptible_timeout`. -/
theorem underway_timeout {g0 g : Block1} {k : Ioctl} {i left left' : Nat}
    {signal : Bool} {elapsed : Nat} {p : Phase} {q : Queue} {ret : Int}
    (hcmd : k.cmd = wqInterruptibleTimeout) (hsame : SameUnits g0 g)
    (hw : waitEventInterruptibleTimeout g.myWq i (available g) signal left
      elapsed p = some (q, .done ret, left')) :
    Underway g0 k { g with myWq := q } (afterWait ret) := by
  have halone : ∀ e, ioctlAlone g0 k e =
      some (consume g0 (timeoutResult (available g0) e)) := by
    intro e
    rw [ioctlAlone, hcmd, if_neg (by decide), if_neg (by decide), if_pos rfl]
  rcases waitEventInterruptibleTimeout_done hw with
    ⟨hpos, hcond⟩ | ⟨hzero, -, hcond⟩ | ⟨hneg, hcond⟩
  · apply underway_afterWait 1 hsame (by omega) (by omega)
    refine ⟨.signal, ?_⟩
    rw [halone, ← hsame.available_eq, hcond]
    rfl
  · apply underway_afterWait 0 hsame (by omega) (by omega)
    refine ⟨.timeout, ?_⟩
    rw [halone, ← hsame.available_eq, hcond]
    rfl
  · apply underway_afterWait (-erestartsys) hsame (by omega) (by omega)
    refine ⟨.signal, ?_⟩
    rw [halone, ← hsame.available_eq, hcond]
    rfl

theorem Underway.step {g0 g g' : Block1} {k : Ioctl} {i : Nat} {l l' : Call}
    {o : Env} (hk : l.ioctl = k) (h : Underway g0 k g l.pc)
    (hst : simpleBlock1Step g i l o = some (g', l')) :
    l'.ioctl = k ∧ Underway g0 k g' l'.pc := by
  unfold simpleBlock1Step at hst
  split at hst
  case h_1 p hpc =>
    rw [hpc] at h
    obtain ⟨hcmd, hsame⟩ := h
    split at hst
    · cases hst
    · cases hst
      exact ⟨hk, hcmd, hsame⟩
    case h_3 q ret hw =>
      cases hst
      have hcond := waitEvent_done hw
      rw [hsame.available_eq] at hcond
      refine ⟨hk, hsame, .signal, ?_⟩
      rw [ioctlAlone, if_pos hcmd, if_pos hcond]
      rfl
  case h_2 p hpc =>
    rw [hpc] at h
    obtain ⟨hcmd, hsame⟩ := h
    split at hst
    · cases hst
    · cases hst
      exact ⟨hk, hcmd, hsame⟩
    case h_3 q ret hw =>
      cases hst
      exact ⟨hk, underway_interruptible hcmd hsame hw⟩
  case h_3 p left hpc =>
    rw [hpc] at h
    obtain ⟨hcmd, hsame⟩ := h
    split at hst
    · cases hst
    · cases hst
      exact ⟨hk, hcmd, hsame⟩
    case h_3 q ret left' hw =>
      cases hst
      exact ⟨hk, underway_timeout hcmd hsame hw⟩
  case h_4 hpc =>
    rw [hpc] at h
    cases hst
    obtain ⟨hsame, e, he⟩ := h
    exact ⟨hk, e, _, he, hsame.take⟩
  case h_5 hpc =>
    rw [hpc] at h
    cases hst
    refine ⟨hk, h.1, ?_⟩
    show SameUnits (add g0 k.arg) (add g l.ioctl.arg)
    rw [hk]
    exact h.2.add k.arg
  case h_6 hpc =>
    rw [hpc] at h
    cases hst
    obtain ⟨hcmd, hsame⟩ := h
    refine ⟨hk, .signal, add g0 k.arg, ?_, hsame⟩
    rw [ioctlAlone, hcmd, if_neg (by decide), if_neg (by decide),
      if_neg (by decide), if_pos rfl]
  case h_7 hpc =>
    rw [hpc] at h
    cases hst
    obtain ⟨e, g'', he, hsame⟩ := h
    refine ⟨hk, e, g'', ?_, hsame⟩
    rw [he, hsame.1]
  case h_8 => cases hst

/-- A call on its own does what one step of the sequential machine does, and
returns the same. -/
theorem alone_sequential {hz : Nat} {c d : Conf} {g : Block1} {k : Ioctl}
    {os : List Env} (hsame : SameUnits g c.shared)
    (h : CallPool.alone (simpleBlock1Ioctl hz) simpleBlock1Step ended c
      (k, os) = some d) :
    ∃ e g' ret l, ioctlAlone g k e = some (g', ret) ∧
      SameUnits g' d.shared ∧ d.calls = c.calls ++ [l] ∧
      l.pc = .returned ret := by
  obtain ⟨-, g', l, hsolo, hended, hd⟩ := CallPool.run_alone h
  have hfar : l.ioctl = k ∧ Underway g k g' l.pc :=
    run_induct (P := fun s : Block1 × Call =>
        s.2.ioctl = k ∧ Underway g k s.1 s.2.pc)
      (fun _ _ _ hs hst => hs.2.step hs.1 hst)
      (enter_underway hz k hsame) hsolo
  unfold ended at hended
  split at hended
  case h_1 code hpc =>
    have hret := hfar.2
    rw [hpc] at hret
    obtain ⟨e, g'', he, hg⟩ := hret
    rw [hd]
    exact ⟨e, g'', code, l, he, hg, rfl, hpc⟩
  case h_2 => cases hended

/-- So a run of the module in which the ioctls are issued one after another
is a run of the sequential machine. -/
theorem run_sequential {hz : Nat} {d : Conf} {as : List (Ioctl × List Env)}
    (hrun : run (CallPool.alone (simpleBlock1Ioctl hz) simpleBlock1Step ended)
      (CallPool.start simpleBlock1Init) as = some d) :
    ∃ bs g, run sequentialStep simpleBlock1Init bs = some g ∧
      SameUnits g d.shared := by
  have hinit : SameUnits simpleBlock1Init
      (CallPool.start simpleBlock1Init : Conf).shared := SameUnits.refl _
  refine run_simulates (R := fun (c : Conf) (g : Block1) =>
    SameUnits g c.shared) ?_ hinit hrun
  intro c a d g hR hst
  obtain ⟨e, g', ret, l, he, hsame, -, -⟩ := alone_sequential hR hst
  refine ⟨(a.1, e), g', ?_, hsame⟩
  rw [sequentialStep, he]
  rfl

/-- The call can get from `l` to `l'` alone, and only the wait queue
changes. -/
def Waits (i : Nat) (g : Block1) (l l' : Call) : Prop :=
  ∃ os q, CallPool.solo simpleBlock1Step i (g, l) os =
    some ({ g with myWq := q }, l')

/-- The rest of a consumer after its wait. -/
theorem solo_afterWait {i : Nat} {g : Block1} {k : Ioctl} {l : Call}
    {ret : Int} (h : Waits i g l ⟨k, afterWait ret⟩) :
    ∃ os g', CallPool.solo simpleBlock1Step i (g, l) os =
        some (g', ⟨k, .returned (consume g ret).2⟩) ∧
      SameUnits (consume g ret).1 g' := by
  obtain ⟨os, q, hwait⟩ := h
  unfold consume afterWait at *
  by_cases hret : ret < 0
  · rw [if_pos hret] at hwait ⊢
    exact ⟨os, _, hwait, rfl, rfl, rfl⟩
  · rw [if_neg hret] at hwait ⊢
    refine ⟨os ++ [⟨false, 0⟩, ⟨false, 0⟩], take { g with myWq := q }, ?_,
      rfl, rfl, rfl⟩
    unfold CallPool.solo at hwait ⊢
    rw [run_append, hwait]
    rfl

theorem waits_wait {i : Nat} {g : Block1} (k : Ioctl)
    (hunit : available g = true) :
    Waits i g ⟨k, .wait .entry⟩ ⟨k, afterWait 0⟩ := by
  refine ⟨[⟨false, 0⟩], g.myWq, ?_⟩
  simp [CallPool.solo, simpleBlock1Step, waitEvent, waitEventInterruptible,
    hunit, afterWait]

theorem waits_waitInterruptible (i : Nat) (g : Block1) (k : Ioctl) :
    Waits i g ⟨k, .waitInterruptible .entry⟩
      ⟨k, afterWait (interruptibleResult (available g))⟩ := by
  cases hunit : available g with
  | true =>
      refine ⟨[⟨false, 0⟩], g.myWq, ?_⟩
      simp [CallPool.solo, simpleBlock1Step, waitEventInterruptible, hunit,
        interruptibleResult]
  | false =>
      refine ⟨[⟨false, 0⟩, ⟨true, 0⟩, ⟨false, 0⟩], finishWait g.myWq i, ?_⟩
      have hagain : available { g with myWq := finishWait g.myWq i } =
        false := hunit
      simp [CallPool.solo, simpleBlock1Step, waitEventInterruptible, hunit,
        hagain, interruptibleResult]

/-- One step of the wait with a time-out, and what comes then. -/
theorem Waits.timeout_again {i : Nat} {g : Block1} {k : Ioctl} {l : Call}
    {p p' : Phase} {left left' elapsed : Nat} {signal : Bool} {q : Queue}
    (hst : waitEventInterruptibleTimeout g.myWq i (available g) signal left
      elapsed p = some (q, .again p', left'))
    (h : Waits i { g with myWq := q } ⟨k, .waitTimeout p' left'⟩ l) :
    Waits i g ⟨k, .waitTimeout p left⟩ l := by
  obtain ⟨os, q', hrest⟩ := h
  have hfirst : simpleBlock1Step g i ⟨k, .waitTimeout p left⟩
      ⟨signal, elapsed⟩ =
        some ({ g with myWq := q }, ⟨k, .waitTimeout p' left'⟩) := by
    simp only [simpleBlock1Step, hst]
  refine ⟨⟨signal, elapsed⟩ :: os, q', ?_⟩
  unfold CallPool.solo at hrest ⊢
  rw [run_cons, hfirst]
  exact hrest

/-- And its last step. -/
theorem Waits.timeout_done {i : Nat} {g : Block1} {k : Ioctl} {p : Phase}
    {left left' : Nat} {ret : Int} {q : Queue}
    (hst : waitEventInterruptibleTimeout g.myWq i (available g) false left 0
      p = some (q, .done ret, left')) :
    Waits i g ⟨k, .waitTimeout p left⟩ ⟨k, afterWait ret⟩ := by
  have hlast : simpleBlock1Step g i ⟨k, .waitTimeout p left⟩ ⟨false, 0⟩ =
      some ({ g with myWq := q }, ⟨k, afterWait ret⟩) := by
    simp only [simpleBlock1Step, hst]
  exact ⟨[⟨false, 0⟩], q, run_single hlast⟩

theorem waits_waitTimeout {hz : Nat} (hhz : 0 < hz) (i : Nat) (g : Block1)
    (k : Ioctl) (e : WaitEnd) :
    Waits i g ⟨k, .waitTimeout .entry (2 * hz)⟩
      ⟨k, afterWait (timeoutResult (available g) e)⟩ := by
  have hleft : 2 * hz ≠ 0 := by omega
  cases hunit : available g with
  | true =>
      refine ⟨[⟨false, 0⟩], g.myWq, ?_⟩
      have hpos : ¬ 2 * (hz : Int) < 0 := by omega
      simp [CallPool.solo, simpleBlock1Step, waitEventInterruptibleTimeout,
        waitCondTimeout, hunit, hleft, timeoutResult, afterWait, hpos]
  | false =>
      have hcond : waitCondTimeout false (2 * hz) = none := by
        simp [waitCondTimeout, hleft]
      have hentry : waitEventInterruptibleTimeout g.myWq i (available g)
          false (2 * hz) 0 .entry =
            some (g.myWq, .again .prepare, 2 * hz) := by
        simp only [waitEventInterruptibleTimeout, hunit, hcond]
      cases e with
      | signal =>
          have hprepare : waitEventInterruptibleTimeout g.myWq i
              (available g) true (2 * hz) 0 .prepare =
                some (finishWait g.myWq i, .again (.test true), 2 * hz) := rfl
          have htest : waitEventInterruptibleTimeout (finishWait g.myWq i) i
              (available g) false (2 * hz) 0 (.test true) =
                some (finishWait g.myWq i, .done (-erestartsys), 2 * hz) := by
            simp only [waitEventInterruptibleTimeout, hunit, hcond, if_true]
          exact .timeout_again hentry
            (.timeout_again hprepare (.timeout_done htest))
      | timeout =>
          have hprepare : ∀ q left, waitEventInterruptibleTimeout q i
              (available g) false left 0 .prepare =
                some (prepareToWait q i false, .again (.test false), left) :=
            fun _ _ => rfl
          have htest : ∀ q, waitEventInterruptibleTimeout q i (available g)
              false (2 * hz) 0 (.test false) =
                some (q, .again .asleep, 2 * hz) := by
            intro q
            simp only [waitEventInterruptibleTimeout, hunit, hcond,
              Bool.false_eq_true, if_false]
          have hasleep : ∀ q, waitEventInterruptibleTimeout q i
              (available g) false (2 * hz) (2 * hz) .asleep =
                some (finishWait q i, .again .prepare, 0) := by
            intro q
            simp [waitEventInterruptibleTimeout]
          have hover : ∀ q, waitEventInterruptibleTimeout q i (available g)
              false 0 0 (.test false) =
                some (finishWait q i, .done 0, 0) := by
            intro q
            simp [waitEventInterruptibleTimeout, waitCondTimeout, hunit]
          refine .timeout_again hentry (.timeout_again (hprepare _ _) ?_)
          refine .timeout_again (htest _) (.timeout_again (hasleep _) ?_)
          exact .timeout_again (hprepare _ _) (.timeout_done (hover _))

/-- Conversely a call on its own can do all that the sequential machine
does. -/
theorem sequential_alone {hz : Nat} (hhz : 0 < hz) {c : Conf} {g : Block1}
    {k : Ioctl} {e : WaitEnd} {ret : Int}
    (h : ioctlAlone c.shared k e = some (g, ret)) :
    ∃ os d, CallPool.alone (simpleBlock1Ioctl hz) simpleBlock1Step ended c
        (k, os) = some d ∧
      SameUnits g d.shared ∧ d.calls = c.calls ++ [⟨k, .returned ret⟩] := by
  have hends : ∀ (os : List Env) {g' : Block1},
      CallPool.solo simpleBlock1Step c.calls.length
        (c.shared, simpleBlock1Ioctl hz k) os =
          some (g', ⟨k, .returned ret⟩) → SameUnits g g' →
      ∃ os d, CallPool.alone (simpleBlock1Ioctl hz) simpleBlock1Step ended c
          (k, os) = some d ∧
        SameUnits g d.shared ∧ d.calls = c.calls ++ [⟨k, .returned ret⟩] := by
    intro os g' hsolo hsame
    refine ⟨os, ⟨g', c.calls ++ [⟨k, .returned ret⟩]⟩, ?_, hsame, rfl⟩
    simp [CallPool.alone, hsolo, ended]
  have hconsumes : ∀ {l : Call} {ret' : Int},
      simpleBlock1Ioctl hz k = l → consume c.shared ret' = (g, ret) →
      Waits c.calls.length c.shared l ⟨k, afterWait ret'⟩ →
      ∃ os d, CallPool.alone (simpleBlock1Ioctl hz) simpleBlock1Step ended c
          (k, os) = some d ∧
        SameUnits g d.shared ∧ d.calls = c.calls ++ [⟨k, .returned ret⟩] := by
    intro l ret' hl hret hwaits
    obtain ⟨os, g', hsolo, hsame⟩ := solo_afterWait hwaits
    rw [hret] at hsolo hsame
    rw [← hl] at hsolo
    exact hends os hsolo hsame
  unfold ioctlAlone at h
  unfold simpleBlock1Ioctl at hends hconsumes
  split at h
  case isTrue h1 =>
    rw [if_pos h1] at hends hconsumes
    split at h
    case isTrue hunit =>
      exact hconsumes rfl (Option.some.inj h) (waits_wait k hunit)
    case isFalse => cases h
  case isFalse h1 =>
  rw [if_neg h1] at hends hconsumes
  split at h
  case isTrue h2 =>
    rw [if_pos h2] at hends hconsumes
    exact hconsumes rfl (Option.some.inj h) (waits_waitInterruptible _ _ k)
  case isFalse h2 =>
  rw [if_neg h2] at hends hconsumes
  split at h
  case isTrue h3 =>
    rw [if_pos h3] at hends hconsumes
    exact hconsumes rfl (Option.some.inj h) (waits_waitTimeout hhz _ _ k e)
  case isFalse h3 =>
  rw [if_neg h3] at hends hconsumes
  split at h
  case isTrue h4 =>
    rw [if_pos h4] at hends
    cases h
    exact hends [⟨false, 0⟩, ⟨false, 0⟩, ⟨false, 0⟩] rfl
      ⟨rfl, rfl, rfl⟩
  case isFalse h4 =>
    rw [if_neg h4] at hends
    cases h
    exact hends [] rfl (SameUnits.refl _)

/-! ## What an ioctl on its own does -/

/-- The call is a consumer whose wait ends without a unit: by a signal or by
its time-out. -/
def EndedEarly (g : Block1) (k : Ioctl) : Prop :=
  (k.cmd = wqInterruptible ∨ k.cmd = wqInterruptibleTimeout) ∧
    g.myData.toInt ≤ 0

/-- The ways of an ioctl, with the state after it and the value returned. -/
inductive Alone (g : Block1) (k : Ioctl) (e : WaitEnd) : Block1 → Int → Prop
    where
  | consumed (hunit : 0 < g.myData.toInt) (hcmd : k.cmd ≠ wqWakeUp) :
      Alone g k e (take g) (take g).myData.toInt
  | interrupted (hearly : EndedEarly g k)
      (he : k.cmd = wqInterruptibleTimeout → e = .signal) :
      Alone g k e g (-erestartsys)
  | timedOut (hcmd : k.cmd = wqInterruptibleTimeout)
      (hunit : g.myData.toInt ≤ 0) (he : e = .timeout) :
      Alone g k e (take g) (take g).myData.toInt
  | produced (hcmd : k.cmd = wqWakeUp) :
      Alone g k e (add g k.arg) (add g k.arg).myData.toInt
  | invalid (hcmd : k.cmd ≠ wqWakeUp) (hearly : ¬ EndedEarly g k) :
      Alone g k e g (-einval)

theorem ioctlAlone_cases {g g' : Block1} {k : Ioctl} {e : WaitEnd}
    {ret : Int} (h : ioctlAlone g k e = some (g', ret)) :
    Alone g k e g' ret := by
  have hcmds : wq ≠ wqWakeUp ∧ wqInterruptible ≠ wqWakeUp ∧
      wqInterruptibleTimeout ≠ wqWakeUp ∧
      wqInterruptible ≠ wqInterruptibleTimeout := by decide
  obtain ⟨h14, h24, h34, h23⟩ := hcmds
  have hneg : -erestartsys < 0 := by decide
  unfold ioctlAlone at h
  split at h
  case isTrue hcmd =>
    split at h
    case isTrue hunit =>
      cases h
      exact .consumed (of_decide_eq_true hunit) (by rw [hcmd]; exact h14)
    case isFalse => cases h
  case isFalse h1 =>
  split at h
  case isTrue hcmd =>
    cases hunit : available g with
    | true =>
        rw [hunit] at h
        cases h
        exact .consumed (of_decide_eq_true hunit) (by rw [hcmd]; exact h24)
    | false =>
        rw [hunit] at h
        cases h
        refine .interrupted ⟨Or.inl hcmd,
          Int.not_lt.mp (of_decide_eq_false hunit)⟩ fun hcmd' => ?_
        exact absurd (hcmd.symm.trans hcmd') h23
  case isFalse h2 =>
  split at h
  case isTrue hcmd =>
    cases hunit : available g with
    | true =>
        rw [hunit] at h
        cases h
        exact .consumed (of_decide_eq_true hunit) (by rw [hcmd]; exact h34)
    | false =>
        have hnone := Int.not_lt.mp (of_decide_eq_false hunit)
        rw [hunit] at h
        cases e with
        | signal =>
            cases h
            exact .interrupted ⟨Or.inr hcmd, hnone⟩ fun _ => rfl
        | timeout =>
            cases h
            exact .timedOut hcmd hnone rfl
  case isFalse h3 =>
  split at h
  case isTrue hcmd =>
    cases h
    exact .produced hcmd
  case isFalse h4 =>
    cases h
    refine .invalid h4 fun hearly => ?_
    rcases hearly.1 with hcmd | hcmd
    · exact h2 hcmd
    · exact h3 hcmd

/-! ## The result -/

/-- What an ioctl leaves behind: a counter that is not negative, and no more
units consumed than produced; and a consumer whose wait ended without a unit
has changed nothing and reports a failure. -/
structure HonestEnd (g : Block1) (k : Ioctl) (g' : Block1) (ret : Int) :
    Prop where
  nonneg : 0 ≤ g'.myData.toInt
  covered : (g'.consumed : Int) ≤ g'.produced
  unchanged : EndedEarly g k → g'.myData = g.myData ∧ ret < 0

/-- The ioctl ends so. -/
def Honest (g : Block1) (a : Ioctl × WaitEnd) : Prop :=
  ∀ g' ret, ioctlAlone g a.1 a.2 = some (g', ret) → HonestEnd g a.1 g' ret

/-- Producers' amounts are not negative. -/
def Supplied (_ : Block1) (a : Ioctl × WaitEnd) : Prop :=
  a.1.cmd = wqWakeUp → 0 ≤ a.1.arg.toInt

instance (g : Block1) (a : Ioctl × WaitEnd) : Decidable (Supplied g a) :=
  inferInstanceAs (Decidable (_ → _))

/-- No timed wait that finds no unit ends by its time-out, and no producer
takes `my_data` past the largest `long`. -/
def Covered (g : Block1) (a : Ioctl × WaitEnd) : Prop :=
  (a.1.cmd = wqInterruptibleTimeout → g.myData.toInt ≤ 0 → a.2 ≠ .timeout) ∧
    (a.1.cmd = wqWakeUp →
      g.myData.toInt + a.1.arg.toInt < 0x8000000000000000)

instance (g : Block1) (a : Ioctl × WaitEnd) : Decidable (Covered g a) :=
  inferInstanceAs (Decidable ((_ → _ → _) ∧ (_ → _)))

/-- The books of the counter. -/
structure Balanced (g : Block1) : Prop where
  nonneg : 0 ≤ g.myData.toInt
  units : g.myData.toInt = g.produced - g.consumed

theorem init_balanced : Balanced simpleBlock1Init := ⟨by decide, by decide⟩

theorem Balanced.take {g : Block1} (h : Balanced g)
    (hunit : 0 < g.myData.toInt) : Balanced (take g) := by
  have hpred := toInt_pred h.nonneg
  have hunits := h.units
  constructor
  · show 0 ≤ (g.myData - 1).toInt
    omega
  · show (g.myData - 1).toInt = g.produced - ((g.consumed + 1 : Nat) : Int)
    omega

theorem Balanced.add {g : Block1} (h : Balanced g) {arg : BitVec 64}
    (harg : 0 ≤ arg.toInt)
    (hroom : g.myData.toInt + arg.toInt < 0x8000000000000000) :
    Balanced (add g arg) := by
  have hadd := toInt_add_of_lt h.nonneg harg hroom
  have hunits := h.units
  have hnonneg := h.nonneg
  constructor
  · show 0 ≤ (g.myData + arg).toInt
    omega
  · show (g.myData + arg).toInt = g.produced + arg.toInt - g.consumed
    omega

/-- No more was consumed than produced. -/
theorem Balanced.covered {g : Block1} (h : Balanced g) :
    (g.consumed : Int) ≤ g.produced := by
  have hnonneg := h.nonneg
  have hunits := h.units
  omega

/-- A covered ioctl keeps the books and ends as it should. -/
theorem Alone.honest {g g' : Block1} {k : Ioctl} {e : WaitEnd} {ret : Int}
    (h : Alone g k e g' ret) (hb : Balanced g) (hs : Supplied g (k, e))
    (hc : Covered g (k, e)) : Balanced g' ∧ HonestEnd g k g' ret := by
  have hend : Balanced g' → (EndedEarly g k → g' = g ∧ ret < 0) →
      Balanced g' ∧ HonestEnd g k g' ret := by
    intro hb' hearly
    refine ⟨hb', hb'.nonneg, hb'.covered, fun he => ?_⟩
    exact ⟨congrArg Block1.myData (hearly he).1, (hearly he).2⟩
  cases h with
  | consumed hunit hcmd =>
      exact hend (hb.take hunit) fun he => absurd he.2 (Int.not_le.mpr hunit)
  | interrupted hearly he => exact hend hb fun _ => ⟨rfl, by decide⟩
  | timedOut hcmd hunit he => exact absurd he (hc.1 hcmd hunit)
  | produced hcmd =>
      have hne : wqWakeUp ≠ wqInterruptible ∧
          wqWakeUp ≠ wqInterruptibleTimeout := by decide
      refine hend (hb.add (hs hcmd) (hc.2 hcmd)) fun he => ?_
      rcases he.1 with hcmd' | hcmd'
      · exact absurd (hcmd.symm.trans hcmd') hne.1
      · exact absurd (hcmd.symm.trans hcmd') hne.2
  | invalid hcmd hearly => exact hend hb fun he => absurd he hearly

/-- An ioctl that is not covered does not. -/
theorem Alone.not_honest {g g' : Block1} {k : Ioctl} {e : WaitEnd} {ret : Int}
    (h : Alone g k e g' ret) (hb : Balanced g)
    (hc : ¬ Covered g (k, e)) : ¬ HonestEnd g k g' ret := by
  intro hend
  apply hc
  constructor
  · intro hcmd hunit hexpired
    have hunchanged := (hend.unchanged ⟨Or.inr hcmd, hunit⟩).1
    cases h with
    | consumed havail => omega
    | interrupted _ he =>
        rw [he hcmd] at hexpired
        cases hexpired
    | timedOut =>
        have hpred := toInt_pred hb.nonneg
        rw [show (take g).myData = g.myData - 1 from rfl] at hunchanged
        rw [hunchanged] at hpred
        omega
    | produced hwake =>
        exact absurd (hcmd.symm.trans hwake) (by decide)
    | invalid _ hearly => exact hearly ⟨Or.inr hcmd, hunit⟩
  · intro hcmd
    cases h with
    | consumed _ hne => exact absurd hcmd hne
    | interrupted hearly =>
        rcases hearly.1 with hcmd' | hcmd'
        · exact absurd (hcmd.symm.trans hcmd') (by decide)
        · exact absurd (hcmd.symm.trans hcmd') (by decide)
    | timedOut hcmd' => exact absurd (hcmd.symm.trans hcmd') (by decide)
    | produced =>
        have hnonneg := hend.nonneg
        by_cases hroom : g.myData.toInt + k.arg.toInt < 0x8000000000000000
        · exact hroom
        · have hneg := toInt_add_neg (Int.not_lt.mp hroom)
          exact absurd hneg (Int.not_lt.mpr hnonneg)
    | invalid hne => exact absurd hcmd hne

/-- In every run in which the ioctls are issued one after another and the
producers' amounts are not negative: all ioctls end as they should if and
only if no timed wait without a unit ends by its time-out and no producer
overflows the counter. -/
theorem honest_iff_covered {as : List (Ioctl × WaitEnd)} {g : Block1}
    (hrun : run sequentialStep simpleBlock1Init as = some g)
    (hs : Along sequentialStep Supplied simpleBlock1Init as) :
    Along sequentialStep Honest simpleBlock1Init as ↔
      Along sequentialStep Covered simpleBlock1Init as := by
  -- a step of the machine is an ioctl that ends
  have hends : ∀ {g g' : Block1} {a : Ioctl × WaitEnd},
      sequentialStep g a = some g' → ∃ ret,
        ioctlAlone g a.1 a.2 = some (g', ret) ∧ Alone g a.1 a.2 g' ret := by
    intro g g' a hst
    obtain ⟨⟨g'', ret⟩, halone, rfl⟩ := Option.map_eq_some_iff.mp hst
    exact ⟨ret, halone, ioctlAlone_cases halone⟩
  refine along_iff_along (I := Balanced) ?_ ?_ init_balanced hs hrun
  · intro g a g' hb hsup hc hst
    obtain ⟨ret, -, h⟩ := hends hst
    exact (h.honest hb hsup hc).1
  · intro g a g' hb hsup hst
    obtain ⟨ret, halone, h⟩ := hends hst
    constructor
    · intro hhonest
      by_cases hc : Covered g a
      · exact hc
      · exact absurd (hhonest g' ret halone) (h.not_honest hb hc)
    · intro hc g'' ret' halone'
      exact ((ioctlAlone_cases halone').honest hb hsup hc).2

/-- Two units are added, two waits take one each, and a third is interrupted
after the counter is empty again. -/
def inStockRun : List (Ioctl × WaitEnd) :=
  [ (⟨wqWakeUp, 2⟩, .signal), (⟨wq, 0⟩, .signal)
  , (⟨wqInterruptibleTimeout, 0⟩, .timeout)
  , (⟨wqInterruptible, 0⟩, .signal) ]

theorem honest_iff_covered_inStockRun :
    Along sequentialStep Honest simpleBlock1Init inStockRun := by
  have hsome : (run sequentialStep simpleBlock1Init inStockRun).isSome =
      true := by
    decide +kernel
  obtain ⟨g, hrun⟩ := Option.isSome_iff_exists.mp hsome
  exact (honest_iff_covered hrun (by decide +kernel)).mpr (by decide +kernel)

/-- A consumer waits for two seconds in vain. -/
def inVainRun : List (Ioctl × WaitEnd) :=
  [(⟨wqInterruptibleTimeout, 0⟩, .timeout)]

/-- It takes a unit although none was ever produced. -/
theorem inVainRun_consumes :
    run sequentialStep simpleBlock1Init inVainRun = some ⟨-1, [], 0, 1⟩ ∧
      ioctlAlone simpleBlock1Init ⟨wqInterruptibleTimeout, 0⟩ .timeout =
        some (⟨-1, [], 0, 1⟩, -1) ∧
      Along sequentialStep Supplied simpleBlock1Init inVainRun ∧
      ¬ Along sequentialStep Honest simpleBlock1Init inVainRun := by
  have halone : ioctlAlone simpleBlock1Init ⟨wqInterruptibleTimeout, 0⟩
      .timeout = some (⟨-1, [], 0, 1⟩, -1) := by
    decide +kernel
  refine ⟨by decide +kernel, halone, by decide +kernel, fun h => ?_⟩
  have hend : HonestEnd _ _ _ _ := h.1 _ _ halone
  exact absurd hend.nonneg (by decide)

end EmbeddedSystem.Labs.SimpleBlock1
