import EmbeddedSystem.Labs.SimpleBlock1Values
import EmbeddedSystem.Verified.WaitOrder
import EmbeddedSystem.Verified.WakeUps

/-!
# No sleeper of `simple_block_1.c` misses its wake-up

All three ioctls that wait do so on the one queue and not exclusively, and
`WQ_WAKE_UP` adds to `my_data` before it wakes the queue.  The other way for
`my_data` to become positive is the decrement of the smallest `long`, and
nobody wakes the queue after that.
-/

set_option autoImplicit false

namespace EmbeddedSystem.Labs.SimpleBlock1

open EmbeddedSystem.Verified.Long
open EmbeddedSystem.Verified.CallPool
open EmbeddedSystem.Verified.Transition
open EmbeddedSystem.Verified.WaitQueue
open EmbeddedSystem.Verified.WakeUps

/-- The call is inside `schedule()`. -/
def Call.asleep (l : Call) : Bool :=
  match l.pc with
  | .wait .asleep => true
  | .waitInterruptible .asleep => true
  | .waitTimeout .asleep _ => true
  | _ => false

/-- A `WQ_WAKE_UP` owes its wake-up between the two statements. -/
def waiting : Waiting Block1 Call where
  queue := Block1.myWq
  ready := available
  asleep := Call.asleep
  owes := fun l => l.pc = .wake

/-- A decrement does not wrap around. -/
def NoWrap (g : Block1) (l : Call) : Prop :=
  l.pc = .decrement → -0x8000000000000000 < g.myData.toInt

instance (g : Block1) (l : Call) : Decidable (NoWrap g l) :=
  inferInstanceAs (Decidable (_ → _))

theorem wakeUp_shared {q : Queue} (hq : Shared q) : wakeUp q = [] :=
  wakeUpInterruptible_shared hq

/-- A step inside a wait, by what it does to the queue. -/
theorem keeps_wait {g : Block1} {i : Nat} {l l' : Call} {q : Queue}
    (hq : q = g.myWq ∨ q = finishWait g.myWq i ∨
      q = prepareToWait g.myWq i false)
    (hl : l.pc ≠ .wake) (hsleeps : l'.asleep = true → available g = false) :
    Keeps waiting g i l { g with myWq := q } l' where
  shared := fun hs => Shared.of_wait hs hq
  marks := fun j hij hm => by
    rw [show marked (waiting.queue { g with myWq := q }) j = marked q j from
      rfl, marked_of_wait hij hq] at hm
    exact hm
  sleeps := hsleeps
  supplies := Or.inl
  pays := fun howes => absurd (of_decide_eq_true howes) hl

/-- A step outside of the waits that leaves the queue alone. -/
theorem keeps_section {g g' : Block1} {i : Nat} {l l' : Call}
    (hq : g'.myWq = g.myWq) (hl : l.pc ≠ .wake) (hawake : l'.asleep = false)
    (hsupplies : available g' = true → available g = true ∨ l'.pc = .wake) :
    Keeps waiting g i l g' l' where
  shared := fun hs => by
    rw [show waiting.queue g' = g.myWq from hq]
    exact hs
  marks := fun j _ hm => by
    rw [show waiting.queue g' = g.myWq from hq] at hm
    exact hm
  sleeps := fun h => by
    rw [show waiting.asleep l' = false from hawake] at h
    cases h
  supplies := fun h => (hsupplies h).imp_right fun hpc => decide_eq_true hpc
  pays := fun howes => absurd (of_decide_eq_true howes) hl

theorem asleep_afterWait (k : Ioctl) (ret : Int) :
    Call.asleep ⟨k, afterWait ret⟩ = false := by
  unfold afterWait
  split <;> rfl

/-- Where `wait_event` marks and sleeps, `wait_event_interruptible` without a
signal does. -/
theorem waitEvent_eq {q : Queue} {i : Nat} {cond : Bool} {p : Phase} :
    ∃ p', waitEvent q i cond p =
      waitEventInterruptible q i false cond false p' := by
  cases p with
  | entry => exact ⟨.entry, rfl⟩
  | prepare => exact ⟨.prepare, rfl⟩
  | test sig => exact ⟨.test false, rfl⟩
  | asleep => exact ⟨.asleep, rfl⟩

theorem keeps_step {g g' : Block1} {i : Nat} {l l' : Call} {o : Env}
    (hwrap : NoWrap g l) (h : simpleBlock1Step g i l o = some (g', l')) :
    Keeps waiting g i l g' l' := by
  obtain ⟨k, pc⟩ := l
  unfold simpleBlock1Step at h
  cases pc with
  | wait p =>
      obtain ⟨p₀, hp₀⟩ : ∃ p', waitEvent g.myWq i (available g) p =
        waitEventInterruptible g.myWq i false (available g) false p' :=
        waitEvent_eq
      dsimp only at h
      split at h
      case h_1 => cases h
      case h_2 q p' hw =>
        cases h
        rw [hp₀] at hw
        refine keeps_wait (waitEventInterruptible_queue hw)
          (fun h => by cases h) fun hasleep => ?_
        cases p' with
        | asleep => exact cond_of_asleep hw
        | _ => cases hasleep
      case h_3 q ret hw =>
        cases h
        rw [hp₀] at hw
        exact keeps_wait (waitEventInterruptible_queue hw)
          (fun h => by cases h) fun hasleep => by cases hasleep
  | waitInterruptible p =>
      dsimp only at h
      split at h
      case h_1 => cases h
      case h_2 q p' hw =>
        cases h
        refine keeps_wait (waitEventInterruptible_queue hw)
          (fun h => by cases h) fun hasleep => ?_
        cases p' with
        | asleep => exact cond_of_asleep hw
        | _ => cases hasleep
      case h_3 q ret hw =>
        cases h
        refine keeps_wait (waitEventInterruptible_queue hw)
          (fun h => by cases h) fun hasleep => ?_
        rw [asleep_afterWait] at hasleep
        cases hasleep
  | waitTimeout p left =>
      dsimp only at h
      split at h
      case h_1 => cases h
      case h_2 q p' left' hw =>
        cases h
        refine keeps_wait (waitEventInterruptibleTimeout_queue hw)
          (fun h => by cases h) fun hasleep => ?_
        cases p' with
        | asleep => exact cond_of_asleep_timeout hw
        | _ => cases hasleep
      case h_3 q ret left' hw =>
        cases h
        refine keeps_wait (waitEventInterruptibleTimeout_queue hw)
          (fun h => by cases h) fun hasleep => ?_
        rw [asleep_afterWait] at hasleep
        cases hasleep
  | decrement =>
      cases h
      refine keeps_section rfl (fun h => by cases h) rfl fun hready => ?_
      -- what is positive after the decrement was positive before it
      have hpred := toInt_pred_of_lt (hwrap rfl)
      have hpos : 0 < (g.myData - 1).toInt := of_decide_eq_true hready
      exact Or.inl (decide_eq_true (by omega))
  | increment =>
      cases h
      exact keeps_section rfl (fun h => by cases h) rfl fun _ => Or.inr rfl
  | wake =>
      cases h
      exact {
        shared := fun hs => by
          show Shared (wakeUp g.myWq)
          rw [wakeUp_shared (q := g.myWq) hs]
          exact fun e he => by cases he
        marks := fun j _ hm =>
          marked_of_sublist (wakeUpInterruptible_sublist g.myWq) hm
        sleeps := fun h => by cases h
        supplies := Or.inl
        pays := fun _ => Or.inr fun hs => wakeUp_shared hs }
  | readBack =>
      cases h
      exact keeps_section rfl (fun h => by cases h) rfl Or.inl
  | returned code => cases h

theorem discipline (hz : Nat) :
    Discipline waiting (simpleBlock1Ioctl hz) simpleBlock1Step NoWrap where
  awake := fun k => by
    unfold simpleBlock1Ioctl
    repeat' split
    all_goals rfl
  keeps := fun _ _ _ _ _ _ hwrap h => keeps_step hwrap h

/-- In every run in which no decrement wraps around, and whenever no
`WQ_WAKE_UP` is between its update and its wake-up, nobody sleeps unwoken
while `my_data` is positive. -/
theorem sleepers_woken {hz : Nat} {mvs : List Move} {c : Conf}
    (hwrap : Along (move hz) (Meets NoWrap) (start simpleBlock1Init) mvs)
    (hrun : run (move hz) (start simpleBlock1Init) mvs = some c) :
    NoLostWakeup waiting c :=
  noLostWakeup_run (discipline hz) (start_owed waiting rfl) hwrap hrun

/-- Call 0 falls asleep, and call 1 supplies a unit. -/
def supplyRun : List Move :=
  List.flatten
    [ [.issue ⟨wq, 0⟩]
    , List.replicate 3 (.advance 0 ⟨false, 0⟩)
    , [.issue ⟨wqWakeUp, 1⟩]
    , List.replicate 2 (.advance 1 ⟨false, 0⟩) ]

theorem sleepers_woken_supplyRun :
    ∃ c, run (move 100) (start simpleBlock1Init) supplyRun = some c ∧
      NoLostWakeup waiting c := by
  have hsome : (run (move 100) (start simpleBlock1Init)
      supplyRun).isSome = true := by
    decide +kernel
  obtain ⟨c, hrun⟩ := Option.isSome_iff_exists.mp hsome
  exact ⟨c, hrun, sleepers_woken (by decide +kernel) hrun⟩

/-- `my_data` is the smallest `long` when a third call, which has waited in
vain, takes its unit, and the sleeper is left where it is. -/
def wrapRun : List Move :=
  List.flatten
    [ [.issue ⟨wqInterruptibleTimeout, 0⟩]
    , List.replicate 3 (.advance 0 ⟨false, 0⟩)
    , [.advance 0 ⟨false, 200⟩, .advance 0 ⟨false, 0⟩, .advance 0 ⟨false, 0⟩]
    , [.issue ⟨wqWakeUp, BitVec.intMin 64⟩]
    , List.replicate 3 (.advance 1 ⟨false, 0⟩)
    , [.issue ⟨wq, 0⟩]
    , List.replicate 3 (.advance 2 ⟨false, 0⟩)
    , [.advance 0 ⟨false, 0⟩] ]

/-- Without the condition the sleeper stays asleep. -/
example :
    (run (move 100) (start simpleBlock1Init) wrapRun).map
      (fun c => (available c.shared, (c.calls[2]?).any waiting.asleep,
        marked c.shared.myWq 2, c.calls.any waiting.owes)) =
      some (true, true, true, false) := by
  decide +kernel

end EmbeddedSystem.Labs.SimpleBlock1
