import EmbeddedSystem.Verified.IrqLine
import EmbeddedSystem.Verified.Tasklet
import EmbeddedSystem.Verified.Transition

/-!
# Unloading `simple_tasklet.c`

The switch's interrupt schedules a tasklet.  `simple_tasklet_exit` kills the
tasklet before it frees the interrupt, so an interrupt that comes in between
schedules it again.  Whether it has run by the time the module is gone is up
to the softirq (`final_of_notRescheduled`).
-/

set_option autoImplicit false

namespace EmbeddedSystem.Labs.SimpleTasklet

open EmbeddedSystem.Verified
open EmbeddedSystem.Verified.Transition

/-! ## The module -/

/-- Where `simple_tasklet_isr` stands. -/
inductive IsrPc where
  | idle
  | schedule
  | leave
deriving DecidableEq, Repr

/-- The next statement of `simple_tasklet_exit`; `loaded` is before it is
called.  The three parts of `tasklet_kill` are statements of their own. -/
inductive ExitPc where
  | loaded
  | killTake
  | unlockWait
  | clearSched
  | freeIrq
  | freeGpio
  | returned
deriving DecidableEq, Repr

structure Module where
  myTasklet : Tasklet
  switchRequested : Bool
  line : IrqLine
  isr : IsrPc
  exitPc : ExitPc
deriving DecidableEq, Repr

/-- `simple_tasklet_init`, which returns 0 in any case.  `gpioRet` and `ret`
are what `gpio_request_one` and `request_irq` return. -/
def simpleTaskletInit (gpioRet ret : Int) : Module :=
  { myTasklet := .taskletInit
    switchRequested := gpioRet = 0
    line :=
      if ret = 0 then IrqLine.unused.requestIrq else IrqLine.unused.freeIrq
    isr := .idle
    exitPc := .loaded }

inductive Move where
  | interrupt
  | isr
  | start
  | finish
  | exit
deriving DecidableEq, Repr

/-- One statement of `simple_tasklet_isr`. -/
def simpleTaskletIsr (m : Module) : IsrPc → Option Module
  | .idle => none
  | .schedule =>
      some { m with myTasklet := m.myTasklet.taskletSchedule, isr := .leave }
  | .leave => some { m with isr := .idle }

/-- One statement of `simple_tasklet_exit`.  `free_irq` waits for a handler
that is running. -/
def simpleTaskletExit (m : Module) : ExitPc → Option Module
  | .loaded => some { m with exitPc := .killTake }
  | .killTake =>
      m.myTasklet.killTake.map fun t =>
        { m with myTasklet := t, exitPc := .unlockWait }
  | .unlockWait =>
      m.myTasklet.unlockWait.map fun t =>
        { m with myTasklet := t, exitPc := .clearSched }
  | .clearSched =>
      some { m with myTasklet := m.myTasklet.clearSched, exitPc := .freeIrq }
  | .freeIrq =>
      if m.isr = .idle then
        some { m with line := m.line.freeIrq, exitPc := .freeGpio }
      else none
  | .freeGpio =>
      some { m with switchRequested := false, exitPc := .returned }
  | .returned => none

/-- One step of the module.  The handler is not re-entered.  After
`simple_tasklet_exit` there is no module left that the softirq could run. -/
def step (m : Module) : Move → Option Module
  | .interrupt =>
      if m.line.enabled = true ∧ m.isr = .idle then
        some { m with isr := .schedule }
      else none
  | .isr => simpleTaskletIsr m m.isr
  | .start =>
      if m.exitPc = .returned then none
      else m.myTasklet.start.map fun t => { m with myTasklet := t }
  | .finish =>
      if m.exitPc = .returned then none
      else m.myTasklet.finish.map fun t => { m with myTasklet := t }
  | .exit => simpleTaskletExit m m.exitPc

inductive Step (m : Module) : Move → Module → Prop where
  | interrupt (hen : m.line.enabled = true) (hidle : m.isr = .idle) :
      Step m .interrupt { m with isr := .schedule }
  | schedule (hpc : m.isr = .schedule) :
      Step m .isr
        { m with myTasklet := m.myTasklet.taskletSchedule, isr := .leave }
  | leave (hpc : m.isr = .leave) : Step m .isr { m with isr := .idle }
  | start (hin : m.exitPc ≠ .returned) (hs : m.myTasklet.sched = .queued)
      (hr : m.myTasklet.running = false) :
      Step m .start { m with myTasklet := ⟨.clear, true⟩ }
  | finish (hin : m.exitPc ≠ .returned) (hr : m.myTasklet.running = true) :
      Step m .finish
        { m with myTasklet := { m.myTasklet with running := false } }
  | call (hpc : m.exitPc = .loaded) :
      Step m .exit { m with exitPc := .killTake }
  | killTake (hpc : m.exitPc = .killTake) (hs : m.myTasklet.sched = .clear) :
      Step m .exit
        { m with
          myTasklet := { m.myTasklet with sched := .held }
          exitPc := .unlockWait }
  | unlockWait (hpc : m.exitPc = .unlockWait)
      (hr : m.myTasklet.running = false) :
      Step m .exit { m with exitPc := .clearSched }
  | clearSched (hpc : m.exitPc = .clearSched) :
      Step m .exit
        { m with myTasklet := m.myTasklet.clearSched, exitPc := .freeIrq }
  | freeIrq (hpc : m.exitPc = .freeIrq) (hidle : m.isr = .idle) :
      Step m .exit { m with line := m.line.freeIrq, exitPc := .freeGpio }
  | freeGpio (hpc : m.exitPc = .freeGpio) :
      Step m .exit { m with switchRequested := false, exitPc := .returned }

theorem step_step {m n : Module} {mv : Move} (h : step m mv = some n) :
    Step m mv n := by
  cases mv with
  | interrupt =>
      simp only [step] at h
      split at h
      case isTrue hen =>
        cases h
        exact .interrupt hen.1 hen.2
      case isFalse => cases h
  | isr =>
      cases hpc : m.isr with
      | idle => simp [step, hpc, simpleTaskletIsr] at h
      | schedule =>
          simp only [step, hpc, simpleTaskletIsr, Option.some.injEq] at h
          exact h ▸ .schedule hpc
      | leave =>
          simp only [step, hpc, simpleTaskletIsr, Option.some.injEq] at h
          exact h ▸ .leave hpc
  | start =>
      simp only [step] at h
      split at h
      case isTrue => cases h
      case isFalse hin =>
        obtain ⟨t, ht, rfl⟩ := Option.map_eq_some_iff.mp h
        obtain ⟨hs, hr, rfl⟩ := Tasklet.start_cases ht
        exact .start hin hs hr
  | finish =>
      simp only [step] at h
      split at h
      case isTrue => cases h
      case isFalse hin =>
        obtain ⟨t, ht, rfl⟩ := Option.map_eq_some_iff.mp h
        obtain ⟨hr, rfl⟩ := Tasklet.finish_cases ht
        exact .finish hin hr
  | exit =>
      cases hpc : m.exitPc with
      | loaded =>
          simp only [step, hpc, simpleTaskletExit, Option.some.injEq] at h
          exact h ▸ .call hpc
      | killTake =>
          simp only [step, hpc, simpleTaskletExit, Option.map_eq_some_iff] at h
          obtain ⟨t, ht, rfl⟩ := h
          obtain ⟨hs, rfl⟩ := Tasklet.killTake_cases ht
          exact .killTake hpc hs
      | unlockWait =>
          simp only [step, hpc, simpleTaskletExit, Option.map_eq_some_iff] at h
          obtain ⟨t, ht, rfl⟩ := h
          obtain ⟨hr, rfl⟩ := Tasklet.unlockWait_cases ht
          exact .unlockWait hpc hr
      | clearSched =>
          simp only [step, hpc, simpleTaskletExit, Option.some.injEq] at h
          exact h ▸ .clearSched hpc
      | freeIrq =>
          simp only [step, hpc, simpleTaskletExit] at h
          split at h
          case isTrue hidle =>
            cases h
            exact .freeIrq hpc hidle
          case isFalse => cases h
      | freeGpio =>
          simp only [step, hpc, simpleTaskletExit, Option.some.injEq] at h
          exact h ▸ .freeGpio hpc
      | returned => simp [step, hpc, simpleTaskletExit] at h

/-! ## The bit of `tasklet_kill` -/

/-- `tasklet_kill` has the bit. -/
def ExitPc.holding : ExitPc → Bool
  | .unlockWait => true
  | .clearSched => true
  | _ => false

/-- While it has, the tasklet is not queued, and once it has waited for a run
to end there is none. -/
structure Killing (m : Module) : Prop where
  bit : m.myTasklet.sched = .held ↔ m.exitPc.holding = true
  waited : m.exitPc = .clearSched → m.myTasklet.running = false

theorem init_killing (gpioRet ret : Int) :
    Killing (simpleTaskletInit gpioRet ret) :=
  { bit := iff_of_false (fun h => by cases h) (fun h => by cases h)
    waited := fun h => by cases h }

/-- The tasklet stays as it is, and `tasklet_kill` has the bit in neither
state. -/
theorem Killing.goto {m n : Module} (h : Killing m)
    (htasklet : n.myTasklet = m.myTasklet)
    (hm : m.exitPc.holding = false) (hn : n.exitPc.holding = false) :
    Killing n := by
  refine ⟨?_, fun hpc => ?_⟩
  · rw [htasklet, h.bit, hm, hn]
  · rw [hpc] at hn
    cases hn

theorem Killing.step {m n : Module} {mv : Move} (h : Killing m)
    (hst : step m mv = some n) : Killing n := by
  cases step_step hst with
  | interrupt hen hidle => exact ⟨h.bit, h.waited⟩
  | schedule hpc =>
      by_cases hheld : m.myTasklet.sched = .held
      · rw [Tasklet.taskletSchedule_of_held hheld]
        exact ⟨h.bit, h.waited⟩
      · rw [Tasklet.queued_taskletSchedule hheld]
        refine ⟨iff_of_false (fun heq => by cases heq) ?_, h.waited⟩
        exact fun hold => hheld (h.bit.mpr hold)
  | leave hpc => exact ⟨h.bit, h.waited⟩
  | start hin hs hr =>
      have hnot : ¬ m.exitPc.holding = true := by
        intro hold
        rw [h.bit.mpr hold] at hs
        cases hs
      refine ⟨iff_of_false (fun heq => by cases heq) hnot, fun hpc => ?_⟩
      exact absurd (by rw [show m.exitPc = _ from hpc]; rfl) hnot
  | finish hin hr => exact ⟨h.bit, fun _ => rfl⟩
  | call hpc => exact h.goto rfl (by rw [hpc]; rfl) rfl
  | killTake hpc hs => exact ⟨iff_of_true rfl rfl, fun heq => by cases heq⟩
  | unlockWait hpc hr =>
      have hheld := h.bit.mpr (by rw [hpc]; rfl)
      exact ⟨iff_of_true hheld rfl, fun _ => hr⟩
  | clearSched hpc =>
      refine ⟨iff_of_false ?_ ?_, fun heq => by cases heq⟩
      · exact fun heq => by cases heq
      · exact fun hold => by cases hold
  | freeIrq hpc hidle => exact h.goto rfl (by rw [hpc]; rfl) rfl
  | freeGpio hpc => exact h.goto rfl (by rw [hpc]; rfl) rfl

theorem reachable_killing {gpioRet ret : Int} {m : Module} {mvs : List Move}
    (hrun : run step (simpleTaskletInit gpioRet ret) mvs = some m) :
    Killing m :=
  run_induct (fun _ _ _ h hst => Killing.step h hst)
    (init_killing gpioRet ret) hrun

/-- An interrupt that does not meet `tasklet_kill` puts the tasklet into the
queue. -/
theorem Killing.queued {m : Module} (h : Killing m)
    (hpc : m.exitPc.holding = false) :
    m.myTasklet.taskletSchedule.sched = .queued := by
  have hnot : m.myTasklet.sched ≠ .held := by
    intro hheld
    rw [h.bit.mp hheld] at hpc
    cases hpc
  rw [Tasklet.queued_taskletSchedule hnot]

/-! ## Taken apart in the wrong order -/

/-- `tasklet_kill` has returned. -/
def ExitPc.killed : ExitPc → Bool
  | .loaded => false
  | .killTake => false
  | .unlockWait => false
  | .clearSched => false
  | _ => true

theorem ExitPc.holding_of_killed {pc : ExitPc} (h : pc.killed = true) :
    pc.holding = false := by
  cases pc with
  | unlockWait => cases h
  | clearSched => cases h
  | _ => rfl

/-- `free_irq` has returned. -/
def ExitPc.irqFreed : ExitPc → Bool
  | .freeGpio => true
  | .returned => true
  | _ => false

/-- When `simple_tasklet_exit` has returned, the tasklet is idle. -/
def Final (m : Module) : Prop := m.exitPc = .returned → m.myTasklet.Idle

/-- No interrupt schedules the tasklet after `tasklet_kill` has returned. -/
def NotRescheduled (m : Module) : Move → Prop
  | .isr => m.isr = .schedule → m.exitPc.killed = false
  | _ => True

instance (m : Module) : ∀ mv, Decidable (NotRescheduled m mv)
  | .isr => inferInstanceAs (Decidable (_ → _))
  | .interrupt | .start | .finish | .exit => isTrue trivial

/-- What `simple_tasklet_exit` has taken down stays down. -/
structure Down (m : Module) : Prop where
  killing : Killing m
  tasklet : m.exitPc.killed = true → m.myTasklet.Idle
  isr : m.exitPc.irqFreed = true → m.isr = .idle ∧ m.line.handled = false

theorem Down.final {m : Module} (h : Down m) : Final m :=
  fun hpc => h.tasklet (by rw [hpc]; rfl)

theorem init_down (gpioRet ret : Int) : Down (simpleTaskletInit gpioRet ret) :=
  ⟨init_killing gpioRet ret, fun h => (by cases h), fun h => (by cases h)⟩

/-- `tasklet_kill` has not returned. -/
theorem Down.early {m : Module} (h : Killing m)
    (hkilled : m.exitPc.killed = false) (hfreed : m.exitPc.irqFreed = false) :
    Down m :=
  { killing := h
    tasklet := fun hk => by rw [hkilled] at hk; cases hk
    isr := fun hf => by rw [hfreed] at hf; cases hf }

theorem Down.step {m n : Module} {mv : Move} (h : Down m)
    (hin : NotRescheduled m mv) (hst : step m mv = some n) : Down n := by
  have hkilling := h.killing.step hst
  cases step_step hst with
  | interrupt hen hidle =>
      refine ⟨hkilling, h.tasklet, fun hfreed => ?_⟩
      have hoff := (h.isr hfreed).2
      cases hoff.symm.trans (IrqLine.handled_of_enabled hen)
  | schedule hpc =>
      have hearly : m.exitPc.killed = false := hin hpc
      refine ⟨hkilling, fun hkilled => ?_, fun hfreed => ?_⟩
      · rw [hearly] at hkilled
        cases hkilled
      · rw [(h.isr hfreed).1] at hpc
        cases hpc
  | leave hpc =>
      exact ⟨hkilling, h.tasklet, fun hfreed => ⟨rfl, (h.isr hfreed).2⟩⟩
  | start hload hs hr =>
      refine ⟨hkilling, fun hkilled => ?_, h.isr⟩
      rw [(h.tasklet hkilled).1] at hs
      cases hs
  | finish hload hr =>
      refine ⟨hkilling, fun hkilled => ?_, h.isr⟩
      rw [(h.tasklet hkilled).2] at hr
      cases hr
  | call hpc => exact .early hkilling rfl rfl
  | killTake hpc hs => exact .early hkilling rfl rfl
  | unlockWait hpc hr => exact .early hkilling rfl rfl
  | clearSched hpc =>
      exact ⟨hkilling, fun _ => ⟨rfl, h.killing.waited hpc⟩,
        fun hfreed => by cases hfreed⟩
  | freeIrq hpc hidle =>
      refine ⟨hkilling, fun _ => h.tasklet (by rw [hpc]; rfl),
        fun _ => ⟨hidle, ?_⟩⟩
      exact IrqLine.handled_freeIrq m.line
  | freeGpio hpc =>
      exact ⟨hkilling, fun _ => h.tasklet (by rw [hpc]; rfl),
        fun _ => h.isr (by rw [hpc]; rfl)⟩

/-! ## The softirq does not come -/

/-- A move that is not one of the softirq. -/
def Move.arrival : Move → Bool
  | .start => false
  | .finish => false
  | _ => true

/-- `simple_tasklet_exit` does not go back. -/
theorem killed_step {m n : Module} {mv : Move} (h : Step m mv n)
    (hk : m.exitPc.killed = true) : n.exitPc.killed = true := by
  cases h with
  | call hpc =>
      rw [hpc] at hk
      cases hk
  | killTake hpc hs =>
      rw [hpc] at hk
      cases hk
  | unlockWait hpc hr =>
      rw [hpc] at hk
      cases hk
  | clearSched hpc => rfl
  | freeIrq hpc => rfl
  | freeGpio hpc => rfl
  | _ => exact hk

theorem run_arrival {m n : Module} {mv : Move} (h : step m mv = some n)
    (ha : mv.arrival = true) :
    run step m ([mv].filter Move.arrival) = some n := by
  rw [List.filter_cons_of_pos ha, List.filter_nil]
  exact run_single h

/-- After `tasklet_kill` everything can go on without the softirq, and leaves
a tasklet that is queued as it is. -/
theorem arrivals_step {m n : Module} {mv : Move} {t : Tasklet}
    (hk : m.exitPc.killed = true) (ht : t.sched = .queued)
    (hst : step m mv = some n) :
    ∃ t' : Tasklet, t'.sched = .queued ∧
      run step { m with myTasklet := t } ([mv].filter Move.arrival) =
        some { n with myTasklet := t' } := by
  cases step_step hst with
  | interrupt hen hidle =>
      refine ⟨t, ht, run_arrival ?_ rfl⟩
      exact if_pos ⟨hen, hidle⟩
  | schedule hpc =>
      have hnot : t.sched ≠ .held := by
        rw [ht]
        exact fun heq => by cases heq
      refine ⟨t.taskletSchedule, ?_, run_arrival ?_ rfl⟩
      · rw [Tasklet.queued_taskletSchedule hnot]
      simp only [step, hpc, simpleTaskletIsr]
  | leave hpc =>
      refine ⟨t, ht, run_arrival ?_ rfl⟩
      simp only [step, hpc, simpleTaskletIsr]
  | start hin hs hr => exact ⟨t, ht, rfl⟩
  | finish hin hr => exact ⟨t, ht, rfl⟩
  | call hpc =>
      rw [hpc] at hk
      cases hk
  | killTake hpc hs =>
      rw [hpc] at hk
      cases hk
  | unlockWait hpc hr =>
      rw [hpc] at hk
      cases hk
  | clearSched hpc =>
      rw [hpc] at hk
      cases hk
  | freeIrq hpc hidle =>
      refine ⟨t, ht, run_arrival ?_ rfl⟩
      simp only [step, hpc, simpleTaskletExit]
      exact if_pos hidle
  | freeGpio hpc =>
      refine ⟨t, ht, run_arrival ?_ rfl⟩
      simp only [step, hpc, simpleTaskletExit]

theorem arrivals_run {m n : Module} {mvs : List Move} {t : Tasklet}
    (hk : m.exitPc.killed = true) (ht : t.sched = .queued)
    (hrun : run step m mvs = some n) :
    ∃ t' : Tasklet, t'.sched = .queued ∧
      run step { m with myTasklet := t } (mvs.filter Move.arrival) =
        some { n with myTasklet := t' } := by
  induction mvs generalizing m t with
  | nil =>
      rw [run_nil, Option.some.injEq] at hrun
      exact ⟨t, ht, by rw [hrun]; rfl⟩
  | cons mv mvs ih =>
      obtain ⟨a, ha, hrest⟩ := run_cons_some hrun
      obtain ⟨t1, ht1, hfirst⟩ := arrivals_step hk ht ha
      obtain ⟨t2, ht2, hlater⟩ :=
        ih (killed_step (step_step ha) hk) ht1 hrest
      refine ⟨t2, ht2, ?_⟩
      rw [← List.singleton_append, List.filter_append, run_append, hfirst]
      exact hlater

/-- The same arrivals, and a tasklet that is queued in the end. -/
theorem rescheduled_run {m n : Module} {mvs : List Move} (h : Killing m)
    (hrun : run step m mvs = some n)
    (hbreak : ¬ Along step NotRescheduled m mvs) :
    ∃ mvs' n', mvs'.filter Move.arrival = mvs.filter Move.arrival ∧
      run step m mvs' = some n' ∧ n'.exitPc = n.exitPc ∧
      n'.myTasklet.sched = .queued := by
  obtain ⟨xs, mv, ys, a, b, rfl, -, hxs, hlate, hst, hys⟩ :=
    first_break hrun hbreak
  cases step_step hst with
  | schedule hpc =>
      have hk : a.exitPc.killed = true := by
        cases hk : a.exitPc.killed with
        | true => rfl
        | false => exact absurd (fun _ => hk) hlate
      have ha : Killing a :=
        run_induct (fun _ _ _ h hst => Killing.step h hst) h hxs
      obtain ⟨t, ht, hlater⟩ := arrivals_run
        (t := a.myTasklet.taskletSchedule) (by exact hk)
        (ha.queued (ExitPc.holding_of_killed hk)) hys
      refine ⟨xs ++ .isr :: ys.filter Move.arrival, { n with myTasklet := t },
        ?_, ?_, rfl, ht⟩
      · rw [List.filter_append, List.filter_append]
        congr 1
        rw [List.filter_cons_of_pos rfl, List.filter_cons_of_pos rfl,
          List.filter_filter]
        simp only [Bool.and_self]
      · rw [run_append, hxs, Option.bind_some, run_cons, hst]
        exact hlater
  | leave hpc =>
      refine absurd (fun hsch => ?_) hlate
      rw [hpc] at hsch
      cases hsch
  | _ => exact absurd trivial hlate

/-! ## The result -/

/-- In a run in which no interrupt schedules the tasklet after `tasklet_kill`
has returned, the tasklet is idle when `simple_tasklet_exit` returns.  A run
in which one does, and `simple_tasklet_exit` returns, is only a matter of
luck: with the same arrivals the tasklet can also be left scheduled. -/
theorem final_of_notRescheduled {gpioRet ret : Int} {m : Module}
    {mvs : List Move}
    (hrun : run step (simpleTaskletInit gpioRet ret) mvs = some m) :
    (Along step NotRescheduled (simpleTaskletInit gpioRet ret) mvs →
      Throughout step Final (simpleTaskletInit gpioRet ret) mvs) ∧
    (m.exitPc = .returned →
      ¬ Along step NotRescheduled (simpleTaskletInit gpioRet ret) mvs →
      ∃ mvs' n, mvs'.filter Move.arrival = mvs.filter Move.arrival ∧
        run step (simpleTaskletInit gpioRet ret) mvs' = some n ∧
        n.exitPc = .returned ∧ ¬ Final n) := by
  constructor
  · intro hin xs ys n hsplit hxs
    rw [hsplit] at hin
    exact (run_induct_along (fun _ _ _ h hC hst => Down.step h hC hst)
      (init_down gpioRet ret) hin.of_append hxs).final
  · intro hret hbreak
    obtain ⟨mvs', n, hsame, hrun', hpc, hsch⟩ :=
      rescheduled_run (init_killing gpioRet ret) hrun hbreak
    rw [hret] at hpc
    refine ⟨mvs', n, hsame, hrun', hpc, fun hfinal => ?_⟩
    rw [(hfinal hpc).1] at hsch
    cases hsch

/-- One interrupt, its tasklet, and the exit function. -/
def unloadRun : List Move :=
  [.interrupt, .isr, .isr, .start, .finish] ++ List.replicate 6 .exit

theorem final_of_notRescheduled_unloadRun :
    ∃ m, run step (simpleTaskletInit 0 0) unloadRun = some m ∧
      m.exitPc = .returned ∧ m.myTasklet.Idle := by
  have hend : (run step (simpleTaskletInit 0 0) unloadRun).map
      (fun m => m.exitPc) = some .returned := by
    decide +kernel
  obtain ⟨m, hrun, hpc⟩ := Option.map_eq_some_iff.mp hend
  have hall := (final_of_notRescheduled hrun).1 (by decide +kernel)
  exact ⟨m, hrun, hpc,
    hall unloadRun [] m (List.append_nil _).symm hrun hpc⟩

/-- An interrupt between `tasklet_kill` and `free_irq`. -/
def rescheduleRun : List Move :=
  List.replicate 4 .exit ++ [.interrupt, .isr, .isr, .exit, .exit]

/-- The tasklet is scheduled when the module is gone. -/
theorem rescheduleRun_scheduled :
    ∃ m, run step (simpleTaskletInit 0 0) rescheduleRun = some m ∧
      m.exitPc = .returned ∧ m.myTasklet.sched = .queued ∧ ¬ Final m := by
  have hend : (run step (simpleTaskletInit 0 0) rescheduleRun).map
      (fun m => (m.exitPc, m.myTasklet.sched)) =
        some (.returned, .queued) := by
    decide +kernel
  obtain ⟨m, hrun, hm⟩ := Option.map_eq_some_iff.mp hend
  simp only [Prod.mk.injEq] at hm
  refine ⟨m, hrun, hm.1, hm.2, fun hfinal => ?_⟩
  have hidle := (hfinal hm.1).1
  rw [hm.2] at hidle
  cases hidle

end EmbeddedSystem.Labs.SimpleTasklet
