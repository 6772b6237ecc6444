import EmbeddedSystem.Verified.Uaccess

/-!
# Wait queues and `wait_event_interruptible`

The kernel's wait queue is a list of entries, one for each task that has
marked itself as sleeping.  `prepare_to_wait_event` enqueues the caller (an
exclusive waiter at the tail, any other at the head), `finish_wait` takes it
off, and a wake-up walks the list from the head, takes off and makes runnable
every entry it passes and stops after the first `nr` exclusive ones.  A task
is therefore on the queue exactly as long as it is marked as sleeping and no
wake-up has reached it.

`waitEventInterruptible` is the macro of that name, one call of it for each
of its steps.  It first tests the condition without touching the queue; then
it repeats: enqueue, test, give up if a signal is pending, sleep.
`waitEvent` does not give up, and `waitEventInterruptibleTimeout` also ends
when its time is up.
-/

set_option autoImplicit false

namespace EmbeddedSystem.Verified.WaitQueue

open EmbeddedSystem.Verified.Uaccess

/-- One waiter: the number of the waiting call and `WQ_FLAG_EXCLUSIVE`. -/
structure Entry where
  waiter : Nat
  exclusive : Bool
deriving DecidableEq, Repr

abbrev Queue := List Entry

/-- Waiter `i` is marked as sleeping and no wake-up has reached it since. -/
def marked (q : Queue) (i : Nat) : Bool := q.any (·.waiter == i)

/-- The enqueueing half of `prepare_to_wait_event`. -/
def prepareToWait (q : Queue) (i : Nat) (exclusive : Bool) : Queue :=
  if marked q i then q
  else if exclusive then q ++ [⟨i, true⟩]
  else ⟨i, false⟩ :: q

/-- `finish_wait`: take waiter `i` off the queue. -/
def finishWait (q : Queue) (i : Nat) : Queue := q.filter (·.waiter != i)

/-- `__wake_up_common` with `nr_exclusive = nr`: the entries that are left on
the queue.  `nr = 0` puts no limit on the exclusive waiters. -/
def wakeUpCommon : Nat → Queue → Queue
  | _, [] => []
  | nr, e :: q =>
      if e.exclusive then
        if nr = 1 then q else wakeUpCommon (nr - 1) q
      else wakeUpCommon nr q

/-- `wake_up` -/
def wakeUp (q : Queue) : Queue := wakeUpCommon 1 q

/-- `wake_up_interruptible`. -/
def wakeUpInterruptible (q : Queue) : Queue := wakeUpCommon 1 q

/-- `wake_up_interruptible_all`. -/
def wakeUpInterruptibleAll (q : Queue) : Queue := wakeUpCommon 0 q

/-! ## The waiting loop -/

/-- Where a call stands inside `wait_event_interruptible`. -/
inductive Phase where
  /-- about to test the condition before the loop -/
  | entry
  /-- at the top of the loop, before `prepare_to_wait_event` -/
  | prepare
  /-- enqueued, about to test; `signal` is what `prepare_to_wait_event` saw -/
  | test (signal : Bool)
  /-- inside `schedule()` -/
  | asleep
deriving DecidableEq, Repr

/-- What one step of the macro comes to. -/
inductive Progress where
  | again (p : Phase)
  | done (ret : Int)
deriving DecidableEq, Repr

/-- One step of `wait_event_interruptible(wq, cond)`, or of its exclusive
variant, by waiter `i`.  `signal` says whether a signal is pending for the
caller.  A sleeping caller moves on only when a wake-up has taken it off the
queue or a signal makes it runnable. -/
def waitEventInterruptible (q : Queue) (i : Nat) (exclusive : Bool)
    (cond signal : Bool) : Phase → Option (Queue × Progress)
  | .entry => some (q, if cond then .done 0 else .again .prepare)
  | .prepare =>
      if signal then some (finishWait q i, .again (.test true))
      else some (prepareToWait q i exclusive, .again (.test false))
  | .test sig =>
      if cond then some (finishWait q i, .done 0)
      else if sig then some (q, .done (-erestartsys))
      else some (q, .again .asleep)
  | .asleep =>
      if signal then some (finishWait q i, .again .prepare)
      else if marked q i then none
      else some (q, .again .prepare)

/-- One step of `wait_event(wq, cond)`, which no signal interrupts. -/
def waitEvent (q : Queue) (i : Nat) (cond : Bool) :
    Phase → Option (Queue × Progress)
  | .test _ => waitEventInterruptible q i false cond false (.test false)
  | p => waitEventInterruptible q i false cond false p

/-- `___wait_cond_timeout`: the value that the wait ends with, if it does,
`left` jiffies before the time-out. -/
def waitCondTimeout (cond : Bool) (left : Nat) : Option Nat :=
  if cond then some (if left = 0 then 1 else left)
  else if left = 0 then some 0
  else none

/-- One step of `wait_event_interruptible_timeout(wq, cond, timeout)`, with
the jiffies that are left of the time-out.  `elapsed` is how many of them a
sleeping caller sleeps. -/
def waitEventInterruptibleTimeout (q : Queue) (i : Nat) (cond signal : Bool)
    (left elapsed : Nat) : Phase → Option (Queue × Progress × Nat)
  | .entry =>
      match waitCondTimeout cond left with
      | some ret => some (q, .done ret, left)
      | none => some (q, .again .prepare, left)
  | .prepare =>
      if signal then some (finishWait q i, .again (.test true), left)
      else some (prepareToWait q i false, .again (.test false), left)
  | .test sig =>
      match waitCondTimeout cond left with
      | some ret => some (finishWait q i, .done ret, left)
      | none =>
          if sig then some (q, .done (-erestartsys), left)
          else some (q, .again .asleep, left)
  | .asleep =>
      if signal || decide (left ≤ elapsed) then
        some (finishWait q i, .again .prepare, left - elapsed)
      else if marked q i then none
      else some (q, .again .prepare, left - elapsed)

/-- The macro returns 0 with the condition true, or `-ERESTARTSYS`. -/
theorem waitEventInterruptible_done {q q' : Queue} {i : Nat}
    {exclusive cond signal : Bool} {p : Phase} {ret : Int}
    (h : waitEventInterruptible q i exclusive cond signal p =
      some (q', .done ret)) :
    (ret = 0 ∧ cond = true) ∨ ret = -erestartsys := by
  cases p with
  | entry =>
      cases cond with
      | false => simp [waitEventInterruptible] at h
      | true =>
          simp only [waitEventInterruptible, if_true, Option.some.injEq,
            Prod.mk.injEq, Progress.done.injEq] at h
          exact Or.inl ⟨h.2.symm, rfl⟩
  | prepare =>
      cases signal <;> simp [waitEventInterruptible] at h
  | test sig =>
      cases cond with
      | true =>
          simp only [waitEventInterruptible, if_true, Option.some.injEq,
            Prod.mk.injEq, Progress.done.injEq] at h
          exact Or.inl ⟨h.2.symm, rfl⟩
      | false =>
          cases sig with
          | false => simp [waitEventInterruptible] at h
          | true =>
              simp only [waitEventInterruptible, if_true, Bool.false_eq_true,
                if_false, Option.some.injEq, Prod.mk.injEq,
                Progress.done.injEq] at h
              exact Or.inr h.2.symm
  | asleep =>
      simp only [waitEventInterruptible] at h
      split at h
      · simp at h
      · split at h <;> simp at h

/-- A signal ends the wait only with the condition false. -/
theorem cond_of_interrupted {q q' : Queue} {i : Nat}
    {exclusive cond signal : Bool} {p : Phase}
    (h : waitEventInterruptible q i exclusive cond signal p =
      some (q', .done (-erestartsys))) : cond = false := by
  have hne : (0 : Int) ≠ -erestartsys := by decide
  cases cond with
  | false => rfl
  | true =>
      cases p with
      | entry => simp [waitEventInterruptible, hne] at h
      | prepare => cases signal <;> simp [waitEventInterruptible] at h
      | test sig => simp [waitEventInterruptible, hne] at h
      | asleep =>
          simp only [waitEventInterruptible] at h
          split at h
          · simp at h
          · split at h <;> simp at h

/-- `wait_event` returns with the condition true. -/
theorem waitEvent_done {q q' : Queue} {i : Nat} {cond : Bool} {p : Phase}
    {ret : Int} (h : waitEvent q i cond p = some (q', .done ret)) :
    cond = true := by
  cases p with
  | entry => cases cond <;> simp [waitEvent, waitEventInterruptible] at h ⊢
  | prepare => simp [waitEvent, waitEventInterruptible] at h
  | test sig => cases cond <;> simp [waitEvent, waitEventInterruptible] at h ⊢
  | asleep =>
      simp only [waitEvent, waitEventInterruptible] at h
      split at h
      · simp at h
      · split at h <;> simp at h

/-- The macro returns a positive value with the condition true, 0 when the
time is up with the condition false, or `-ERESTARTSYS`. -/
theorem waitEventInterruptibleTimeout_done {q q' : Queue} {i : Nat}
    {cond signal : Bool} {left elapsed left' : Nat} {p : Phase} {ret : Int}
    (h : waitEventInterruptibleTimeout q i cond signal left elapsed p =
      some (q', .done ret, left')) :
    (0 < ret ∧ cond = true) ∨ (ret = 0 ∧ left = 0 ∧ cond = false) ∨
      (ret = -erestartsys ∧ cond = false) := by
  have hret : ∀ r, waitCondTimeout cond left = some r →
      (0 < (r : Int) ∧ cond = true) ∨
        ((r : Int) = 0 ∧ left = 0 ∧ cond = false) := by
    intro r hr
    unfold waitCondTimeout at hr
    cases cond with
    | true =>
        rw [if_pos rfl, Option.some.injEq] at hr
        refine Or.inl ⟨?_, rfl⟩
        by_cases hleft : left = 0
        · rw [if_pos hleft] at hr
          omega
        · rw [if_neg hleft] at hr
          omega
    | false =>
        rw [if_neg (by decide)] at hr
        by_cases hleft : left = 0
        · rw [if_pos hleft, Option.some.injEq] at hr
          exact Or.inr ⟨by omega, hleft, rfl⟩
        · rw [if_neg hleft] at hr
          cases hr
  have hnone : waitCondTimeout cond left = none → cond = false := by
    intro hn
    cases cond with
    | false => rfl
    | true => cases hn
  cases p with
  | entry =>
      simp only [waitEventInterruptibleTimeout] at h
      split at h
      case h_1 r hr =>
        cases h
        rcases hret r hr with hpos | hzero
        · exact Or.inl hpos
        · exact Or.inr (Or.inl hzero)
      case h_2 => simp at h
  | prepare =>
      simp only [waitEventInterruptibleTimeout] at h
      split at h <;> simp at h
  | test sig =>
      simp only [waitEventInterruptibleTimeout] at h
      split at h
      case h_1 r hr =>
        cases h
        rcases hret r hr with hpos | hzero
        · exact Or.inl hpos
        · exact Or.inr (Or.inl hzero)
      case h_2 hn =>
        split at h
        · cases h
          exact Or.inr (Or.inr ⟨rfl, hnone hn⟩)
        · simp at h
  | asleep =>
      simp only [waitEventInterruptibleTimeout] at h
      split at h
      · simp at h
      · split at h <;> simp at h

/-! ## Marks

A step of one waiter's loop does not touch the other waiters' marks, and a
wake-up of a queue without exclusive waiters takes off everybody. -/

theorem marked_prepareToWait_ne (q : Queue) {i j : Nat} (exclusive : Bool)
    (hij : i ≠ j) : marked (prepareToWait q i exclusive) j = marked q j := by
  unfold prepareToWait
  split
  · rfl
  · split
    · simp [marked, hij]
    · simp [marked, hij]

theorem marked_finishWait_ne (q : Queue) {i j : Nat} (hij : i ≠ j) :
    marked (finishWait q i) j = marked q j := by
  unfold marked finishWait
  induction q with
  | nil => rfl
  | cons e q ih =>
      by_cases he : e.waiter = i
      · have hej : e.waiter ≠ j := by omega
        simp [he, hij, ← ih]
      · simp [he, ← ih]

/-- All that one step of waiter `i` can do to the queue. -/
theorem waitEventInterruptible_queue {q q' : Queue} {i : Nat}
    {exclusive cond signal : Bool} {p : Phase} {r : Progress}
    (h : waitEventInterruptible q i exclusive cond signal p = some (q', r)) :
    q' = q ∨ q' = finishWait q i ∨ q' = prepareToWait q i exclusive := by
  cases p with
  | entry =>
      simp only [waitEventInterruptible, Option.some.injEq, Prod.mk.injEq] at h
      exact Or.inl h.1.symm
  | prepare =>
      simp only [waitEventInterruptible] at h
      split at h <;> simp only [Option.some.injEq, Prod.mk.injEq] at h
      · exact Or.inr (Or.inl h.1.symm)
      · exact Or.inr (Or.inr h.1.symm)
  | test sig =>
      simp only [waitEventInterruptible] at h
      split at h
      · simp only [Option.some.injEq, Prod.mk.injEq] at h
        exact Or.inr (Or.inl h.1.symm)
      · split at h <;> simp only [Option.some.injEq, Prod.mk.injEq] at h <;>
          exact Or.inl h.1.symm
  | asleep =>
      simp only [waitEventInterruptible] at h
      split at h
      · simp only [Option.some.injEq, Prod.mk.injEq] at h
        exact Or.inr (Or.inl h.1.symm)
      · split at h
        · cases h
        · simp only [Option.some.injEq, Prod.mk.injEq] at h
          exact Or.inl h.1.symm

/-- One step of waiter `i` leaves the marks of the others alone. -/
theorem marked_waitEventInterruptible_ne {q q' : Queue} {i j : Nat}
    {exclusive cond signal : Bool} {p : Phase} {r : Progress}
    (h : waitEventInterruptible q i exclusive cond signal p = some (q', r))
    (hij : i ≠ j) : marked q' j = marked q j := by
  rcases waitEventInterruptible_queue h with rfl | rfl | rfl
  · rfl
  · exact marked_finishWait_ne q hij
  · exact marked_prepareToWait_ne q exclusive hij

/-- A waiter goes to sleep only after it has found the condition false. -/
theorem cond_of_asleep {q q' : Queue} {i : Nat}
    {exclusive cond signal : Bool} {p : Phase}
    (h : waitEventInterruptible q i exclusive cond signal p =
      some (q', .again .asleep)) : cond = false := by
  cases p with
  | entry => cases cond <;> simp [waitEventInterruptible] at h
  | prepare => cases signal <;> simp [waitEventInterruptible] at h
  | test sig =>
      cases cond with
      | false => rfl
      | true => simp [waitEventInterruptible] at h
  | asleep =>
      simp only [waitEventInterruptible] at h
      split at h
      · simp at h
      · split at h <;> simp at h

/-- No waiter on the queue is exclusive. -/
def Shared (q : Queue) : Prop := ∀ e ∈ q, e.exclusive = false

/-- The steps of a non-exclusive waiter keep the queue free of exclusive
ones. -/
theorem Shared.waitEventInterruptible {q q' : Queue} {i : Nat}
    {cond signal : Bool} {p : Phase} {r : Progress} (hq : Shared q)
    (h : WaitQueue.waitEventInterruptible q i false cond signal p =
      some (q', r)) : Shared q' := by
  rcases waitEventInterruptible_queue h with rfl | rfl | rfl
  · exact hq
  · exact fun e he => hq e (List.mem_filter.mp he).1
  · intro e he
    unfold prepareToWait at he
    split at he
    · exact hq e he
    · rw [if_neg (by decide)] at he
      rcases List.mem_cons.mp he with rfl | hold
      · rfl
      · exact hq e hold

/-- A wake-up reaches every waiter if none is exclusive. -/
theorem wakeUpInterruptible_shared {q : Queue} (hq : Shared q) :
    wakeUpInterruptible q = [] := by
  unfold wakeUpInterruptible
  induction q with
  | nil => rfl
  | cons e q ih =>
      have he : e.exclusive = false := hq e List.mem_cons_self
      unfold wakeUpCommon
      rw [if_neg (by rw [he]; decide)]
      exact ih fun f hf => hq f (List.mem_cons_of_mem e hf)

end EmbeddedSystem.Verified.WaitQueue
