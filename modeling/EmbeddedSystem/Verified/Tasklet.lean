/-!
# Tasklets

`tasklet_schedule` sets the bit `TASKLET_STATE_SCHED` of a tasklet and queues
it for the softirq, unless the bit is set already.  The softirq takes it out of
the queue, clears the bit and runs it, never twice at a time, so a tasklet that
is scheduled while it runs will run again.

`tasklet_kill` takes the bit for itself as soon as it is clear, waits for a run
to end, and clears the bit again.  A `tasklet_schedule` in the meantime does
nothing.
-/

set_option autoImplicit false

namespace EmbeddedSystem.Verified

/-- Who has set `TASKLET_STATE_SCHED`. -/
inductive SchedBit where
  | clear
  /-- `tasklet_schedule`, and the tasklet is in the queue -/
  | queued
  /-- `tasklet_kill` -/
  | held
deriving DecidableEq, Repr

structure Tasklet where
  sched : SchedBit
  running : Bool
deriving DecidableEq, Repr

namespace Tasklet

/-- `tasklet_init` -/
def taskletInit : Tasklet := ⟨.clear, false⟩

/-- `tasklet_schedule` -/
def taskletSchedule (t : Tasklet) : Tasklet :=
  match t.sched with
  | .clear => { t with sched := .queued }
  | .queued => t
  | .held => t

/-- The softirq runs the tasklet. -/
def start (t : Tasklet) : Option Tasklet :=
  if t.sched = .queued ∧ t.running = false then some ⟨.clear, true⟩ else none

/-- Its function returns. -/
def finish (t : Tasklet) : Option Tasklet :=
  if t.running = true then some { t with running := false } else none

/-- Neither scheduled nor running. -/
def Idle (t : Tasklet) : Prop := t.sched = .clear ∧ t.running = false

instance (t : Tasklet) : Decidable t.Idle :=
  inferInstanceAs (Decidable (_ ∧ _))

/-! ## The three parts of `tasklet_kill` -/

/-- It waits until it can set the bit. -/
def killTake (t : Tasklet) : Option Tasklet :=
  if t.sched = .clear then some { t with sched := .held } else none

/-- `tasklet_unlock_wait` -/
def unlockWait (t : Tasklet) : Option Tasklet :=
  if t.running = false then some t else none

/-- `tasklet_clear_sched` -/
def clearSched (t : Tasklet) : Tasklet := { t with sched := .clear }

/-! ## What they do -/

/-- If `tasklet_kill` does not have the bit, the tasklet is queued now. -/
theorem queued_taskletSchedule {t : Tasklet} (h : t.sched ≠ .held) :
    t.taskletSchedule = { t with sched := .queued } := by
  obtain ⟨sched, running⟩ := t
  cases sched with
  | clear => rfl
  | queued => rfl
  | held => exact absurd rfl h

theorem taskletSchedule_of_held {t : Tasklet} (h : t.sched = .held) :
    t.taskletSchedule = t := by
  rw [taskletSchedule, h]

theorem start_cases {t t' : Tasklet} (h : t.start = some t') :
    t.sched = .queued ∧ t.running = false ∧ t' = ⟨.clear, true⟩ := by
  unfold start at h
  by_cases hs : t.sched = .queued ∧ t.running = false
  · rw [if_pos hs, Option.some.injEq] at h
    exact ⟨hs.1, hs.2, h.symm⟩
  · rw [if_neg hs] at h
    cases h

theorem finish_cases {t t' : Tasklet} (h : t.finish = some t') :
    t.running = true ∧ t' = { t with running := false } := by
  unfold finish at h
  by_cases hr : t.running = true
  · rw [if_pos hr, Option.some.injEq] at h
    exact ⟨hr, h.symm⟩
  · rw [if_neg hr] at h
    cases h

theorem killTake_cases {t t' : Tasklet} (h : t.killTake = some t') :
    t.sched = .clear ∧ t' = { t with sched := .held } := by
  unfold killTake at h
  by_cases hc : t.sched = .clear
  · rw [if_pos hc, Option.some.injEq] at h
    exact ⟨hc, h.symm⟩
  · rw [if_neg hc] at h
    cases h

theorem unlockWait_cases {t t' : Tasklet} (h : t.unlockWait = some t') :
    t.running = false ∧ t' = t := by
  unfold unlockWait at h
  by_cases hr : t.running = false
  · rw [if_pos hr, Option.some.injEq] at h
    exact ⟨hr, h.symm⟩
  · rw [if_neg hr] at h
    cases h

end Tasklet

end EmbeddedSystem.Verified
