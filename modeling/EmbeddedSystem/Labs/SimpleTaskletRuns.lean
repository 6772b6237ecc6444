import EmbeddedSystem.Labs.SimpleTasklet

/-!
# The interrupts of `simple_tasklet.c` and their tasklet

An interrupt that comes while the tasklet is queued adds no run of it, and one
that comes while it runs makes it run again.  So an interrupt is followed by a
run that begins after its `tasklet_schedule`, unless that one met
`tasklet_kill`, and there are as many runs as interrupts that found
`TASKLET_STATE_SCHED` clear (`interrupts_answered`).
-/

set_option autoImplicit false

namespace EmbeddedSystem.Labs.SimpleTasklet

open EmbeddedSystem.Verified
open EmbeddedSystem.Verified.Transition

/-- The move is a `tasklet_schedule` of the handler that queues the
tasklet. -/
def schedules (m : Module) (mv : Move) : Bool :=
  decide (mv = .isr ∧ m.isr = .schedule ∧ m.myTasklet.sched = .clear)

/-- The move begins a run of `simple_tasklet_func`. -/
def begins (_ : Module) (mv : Move) : Bool := decide (mv = .start)

/-- 1 for a tasklet that is queued. -/
def waiting (m : Module) : Nat :=
  if m.myTasklet.sched = .queued then 1 else 0

/-- A move that neither schedules the tasklet nor begins a run of it. -/
theorem waiting_same {m n : Module} {mv : Move} (h : waiting n = waiting m)
    (hs : schedules m mv = false) (hb : begins m mv = false) :
    waiting n + (if begins m mv then 1 else 0) =
      waiting m + if schedules m mv then 1 else 0 := by
  rw [hs, hb, h]

/-- `tasklet_schedule` puts one run into the queue, if the bit is clear. -/
theorem waiting_schedule {m : Module} (hpc : m.isr = .schedule) :
    waiting { m with
        myTasklet := m.myTasklet.taskletSchedule, isr := .leave } =
      waiting m + if schedules m .isr then 1 else 0 := by
  obtain ⟨⟨sched, running⟩, requested, line, isr, exitPc⟩ := m
  cases hpc
  cases sched with
  | clear => rfl
  | queued => rfl
  | held => rfl

/-- A run takes one out. -/
theorem waiting_step {m n : Module} {mv : Move} (h : Killing m)
    (hst : step m mv = some n) :
    waiting n + (if begins m mv then 1 else 0) =
      waiting m + if schedules m mv then 1 else 0 := by
  cases step_step hst with
  | schedule hpc =>
      have hb : begins m .isr = false := rfl
      rw [hb]
      exact waiting_schedule hpc
  | leave hpc =>
      refine waiting_same rfl (decide_eq_false fun hand => ?_) rfl
      rw [hpc] at hand
      cases hand.2.1
  | start hin hs hr =>
      have hone : waiting m = 1 := if_pos hs
      rw [hone]
      rfl
  | killTake hpc hs =>
      have hnone : waiting m = 0 := if_neg (by rw [hs]; decide)
      exact waiting_same hnone.symm rfl rfl
  | clearSched hpc =>
      have hheld := h.bit.mpr (by rw [hpc]; rfl)
      have hnone : waiting m = 0 := if_neg (by rw [hheld]; decide)
      exact waiting_same hnone.symm rfl rfl
  | interrupt hen hidle => exact waiting_same rfl rfl rfl
  | finish hin hr => exact waiting_same rfl rfl rfl
  | call hpc => exact waiting_same rfl rfl rfl
  | unlockWait hpc hr => exact waiting_same rfl rfl rfl
  | freeIrq hpc hidle => exact waiting_same rfl rfl rfl
  | freeGpio hpc => exact waiting_same rfl rfl rfl

/-- Only a run takes the tasklet out of the queue. -/
theorem queued_step {m n : Module} {mv : Move} (hk : Killing m)
    (h : m.myTasklet.sched = .queued) (hmv : mv ≠ .start)
    (hst : step m mv = some n) : n.myTasklet.sched = .queued := by
  cases step_step hst with
  | schedule hpc =>
      refine hk.queued (Bool.eq_false_iff.mpr fun hold => ?_)
      rw [hk.bit.mpr hold] at h
      cases h
  | start hin hs hr => exact absurd rfl hmv
  | killTake hpc hs =>
      rw [h] at hs
      cases hs
  | clearSched hpc =>
      have hheld := hk.bit.mpr (by rw [hpc]; rfl)
      rw [h] at hheld
      cases hheld
  | _ => exact h

/-! ## The softirq -/

/-- The softirq has nothing to do. -/
def AtRest (m : Module) : Prop :=
  m.myTasklet.sched ≠ .queued ∧ m.myTasklet.running = false

theorem step_start {m : Module} (hin : m.exitPc ≠ .returned)
    (hs : m.myTasklet.sched = .queued) (hr : m.myTasklet.running = false) :
    step m .start = some { m with myTasklet := ⟨.clear, true⟩ } := by
  simp only [step, if_neg hin, Tasklet.start, if_pos (And.intro hs hr)]
  rfl

theorem step_finish {m : Module} (hin : m.exitPc ≠ .returned)
    (hr : m.myTasklet.running = true) :
    step m .finish =
      some { m with myTasklet := { m.myTasklet with running := false } } := by
  simp only [step, if_neg hin, Tasklet.finish, if_pos hr]
  rfl

/-- What is queued is run with two moves, when nothing runs. -/
theorem softirq_runs {m : Module} (hin : m.exitPc ≠ .returned)
    (hr : m.myTasklet.running = false) :
    ∃ softirq n, (∀ mv ∈ softirq, mv = .start ∨ mv = .finish) ∧
      softirq.length ≤ 2 ∧ run step m softirq = some n ∧ AtRest n := by
  by_cases hs : m.myTasklet.sched = .queued
  · refine ⟨[.start, .finish],
      { m with myTasklet := ⟨.clear, false⟩ }, by simp, by decide, ?_, ?_⟩
    · rw [run_cons, step_start hin hs hr, Option.bind_some]
      exact run_single (step_finish
        (m := { m with myTasklet := ⟨.clear, true⟩ }) hin rfl)
    · exact ⟨fun heq => (by cases heq), rfl⟩
  · exact ⟨[], m, nofun, by decide, rfl, hs, hr⟩

/-- It needs three moves at most. -/
theorem softirq_finishes {m : Module} (hin : m.exitPc ≠ .returned) :
    ∃ softirq n, (∀ mv ∈ softirq, mv = .start ∨ mv = .finish) ∧
      softirq.length ≤ 3 ∧ run step m softirq = some n ∧ AtRest n := by
  cases hr : m.myTasklet.running with
  | false =>
      obtain ⟨softirq, n, hmoves, hlen, hrun, hrest⟩ := softirq_runs hin hr
      exact ⟨softirq, n, hmoves, Nat.le_succ_of_le hlen, hrun, hrest⟩
  | true =>
      obtain ⟨softirq, n, hmoves, hlen, hrun, hrest⟩ := softirq_runs
        (m := { m with myTasklet := { m.myTasklet with running := false } })
        hin rfl
      refine ⟨.finish :: softirq, n, ?_, Nat.succ_le_succ hlen, ?_, hrest⟩
      · exact List.forall_mem_cons.mpr ⟨Or.inr rfl, hmoves⟩
      · rw [run_cons, step_finish hin hr]
        exact hrun

/-! ## The result -/

/-- After an interrupt has scheduled the tasklet, other than while
`tasklet_kill` has the bit, a run of it begins, or it is still queued.  The
runs, with the one that is queued, are as many as interrupts have found the
bit clear.  And until `simple_tasklet_exit` returns, the softirq can run what
is queued, alone and with three moves at most. -/
theorem interrupts_answered {gpioRet ret : Int} {m : Module}
    {mvs : List Move}
    (hrun : run step (simpleTaskletInit gpioRet ret) mvs = some m) :
    (∀ xs ys a, mvs = xs ++ .isr :: ys →
      run step (simpleTaskletInit gpioRet ret) xs = some a →
      a.isr = .schedule → a.exitPc.holding = false →
      .start ∈ ys ∨ m.myTasklet.sched = .queued) ∧
    counted step begins (simpleTaskletInit gpioRet ret) mvs + waiting m =
      counted step schedules (simpleTaskletInit gpioRet ret) mvs ∧
    (m.exitPc ≠ .returned →
      ∃ softirq n, (∀ mv ∈ softirq, mv = .start ∨ mv = .finish) ∧
        softirq.length ≤ 3 ∧ run step m softirq = some n ∧ AtRest n) := by
  refine ⟨fun xs ys a hsplit hxs hpc hnot => ?_, ?_, softirq_finishes⟩
  · rw [hsplit, run_append, hxs] at hrun
    obtain ⟨b, hb, hrest⟩ := run_cons_some hrun
    have ha := reachable_killing hxs
    have hqueued : b.myTasklet.sched = .queued := by
      simp only [step, hpc, simpleTaskletIsr, Option.some.injEq] at hb
      rw [← hb]
      exact ha.queued hnot
    have hkeep : ∀ (s : Module) (mv : Move) (t : Module),
        Killing s ∧ s.myTasklet.sched = .queued → ¬ mv = .start →
        step s mv = some t → Killing t ∧ t.myTasklet.sched = .queued :=
      fun _ _ _ h hmv hst => ⟨h.1.step hst, queued_step h.1 h.2 hmv hst⟩
    rcases lasts_or_served hkeep ⟨ha.step hb, hqueued⟩ hrest with
      ⟨mv, hmem, rfl⟩ | hlast
    · exact Or.inl hmem
    · exact Or.inr hlast.2
  · have hledger : ∀ (s : Module) (mv : Move) (t : Module),
        Killing s → step s mv = some t →
        waiting t + (if begins s mv then 1 else 0) =
          waiting s + if schedules s mv then 1 else 0 :=
      fun _ _ _ h hst => waiting_step h hst
    have hkilling : ∀ (s : Module) (mv : Move) (t : Module),
        Killing s → step s mv = some t → Killing t :=
      fun _ _ _ h hst => h.step hst
    have heq := counted_add_eq hkilling hledger
      (init_killing gpioRet ret) hrun
    have hnone : waiting (simpleTaskletInit gpioRet ret) = 0 := rfl
    omega

/-- A second interrupt while the tasklet runs, a third one that finds it
queued, and a fourth one that meets `tasklet_kill`. -/
def fourTimesRun : List Move :=
  List.flatten
    [ [.interrupt, .isr, .isr, .start, .interrupt, .isr, .isr]
    , [.interrupt, .isr, .isr, .finish, .start, .exit, .exit]
    , [.interrupt, .isr, .isr] ]

theorem interrupts_answered_fourTimesRun :
    ∃ m, run step (simpleTaskletInit 0 0) fourTimesRun = some m ∧
      m.exitPc = .unlockWait ∧ m.myTasklet = ⟨.held, true⟩ ∧
      counted step begins (simpleTaskletInit 0 0) fourTimesRun = 2 ∧
      ∃ softirq n, softirq.length ≤ 3 ∧ run step m softirq = some n ∧
        AtRest n := by
  have hend : (run step (simpleTaskletInit 0 0) fourTimesRun).map
      (fun m => (m.exitPc, m.myTasklet)) =
        some (.unlockWait, ⟨.held, true⟩) := by
    decide +kernel
  obtain ⟨m, hrun, hm⟩ := Option.map_eq_some_iff.mp hend
  simp only [Prod.mk.injEq] at hm
  obtain ⟨hpc, ht⟩ := hm
  obtain ⟨-, hledger, hsoftirq⟩ := interrupts_answered hrun
  have htwo : counted step schedules (simpleTaskletInit 0 0) fourTimesRun =
      2 := by
    decide +kernel
  have hnone : waiting m = 0 := if_neg (by rw [ht]; decide)
  obtain ⟨softirq, n, -, hlen, hrest⟩ := hsoftirq (by rw [hpc]; decide)
  exact ⟨m, hrun, hpc, ht, by omega, softirq, n, hlen, hrest⟩

end EmbeddedSystem.Labs.SimpleTasklet
