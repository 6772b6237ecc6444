import EmbeddedSystem.Verified.IrqLine
import EmbeddedSystem.Verified.Slab
import EmbeddedSystem.Verified.Transition
import EmbeddedSystem.Verified.Workqueue

/-!
# The work items of `simple_workqueue.c`

Every interrupt of the switch allocates an item, hands it over to the work
queue through the global `work`, and never looks at it again; the item is
freed by the function that it runs.  `simple_workqueue_exit` frees the
interrupt before it flushes the work queue.

`Owned` says who has an item: the handler, the queue or one worker.  From
that, and from what the exit function has taken down (`Torn`), every item is
run once and freed once (`run_once`).
-/

set_option autoImplicit false

namespace EmbeddedSystem.Labs.SimpleWorkqueue

open EmbeddedSystem.Verified
open EmbeddedSystem.Verified.CallPool
open EmbeddedSystem.Verified.Transition

/-! ## State -/

/-- `my_work_t`; of the `work_struct`, whether `INIT_WORK` was called. -/
structure MyWork where
  initialised : Bool
  year : BitVec 32
  month : BitVec 32
  day : BitVec 32
deriving DecidableEq, Repr

/-- The next statement of `my_work_func`. -/
inductive WorkPc where
  | msleep
  | setYear
  | setMonth
  | setDay
  | print
  | free
  | returned
deriving DecidableEq, Repr

/-- The next statement of `simple_workqueue_isr`. -/
inductive IsrPc where
  | idle
  | testWq
  | allocate
  | testWork
  | initWork
  | queueWork
  | leave
deriving DecidableEq, Repr

/-- The next statement of `simple_workqueue_exit`; `loaded` is before it is
called.  `flush_workqueue` waits for the items that it has found. -/
inductive ExitPc where
  | loaded
  | freeIrq
  | freeGpio
  | flush
  | flushing (found : List Nat)
  | destroy
  | returned
deriving DecidableEq, Repr

structure Module where
  items : Slab MyWork
  work : Option Nat
  wqCreated : Bool
  wq : Workqueue WorkPc
  switchRequested : Bool
  line : IrqLine
  isr : IsrPc
  exitPc : ExitPc
deriving DecidableEq, Repr

/-- `simple_workqueue_init`, which returns 0 in any case.  The arguments are
what `create_workqueue` (`false` for `NULL`), `gpio_request_one` and
`request_irq` return. -/
def simpleWorkqueueInit (created : Bool) (gpioRet ret : Int) : Module :=
  { items := .empty
    work := none
    wqCreated := created
    wq := .createWorkqueue
    switchRequested := gpioRet = 0
    line :=
      if ret = 0 then IrqLine.unused.requestIrq else IrqLine.unused.freeIrq
    isr := .idle
    exitPc := .loaded }

/-- An interrupt arrives; the handler goes on, where `mem` is what `kmalloc`
finds in memory, if anything; a worker takes item `p`; worker `i` goes on;
the exit function goes on. -/
inductive Move where
  | interrupt
  | isr (mem : Option MyWork)
  | start (p : Nat)
  | work (i : Nat)
  | exit
deriving DecidableEq, Repr

/-! ## Steps -/

/-- One statement of `simple_workqueue_isr`. -/
def simpleWorkqueueIsr (m : Module) (mem : Option MyWork) :
    IsrPc → Option Module
  | .idle => none
  | .testWq => some { m with isr := if m.wqCreated then .allocate else .leave }
  | .allocate =>
      match mem with
      | none => some { m with work := none, isr := .testWork }
      | some junk =>
          some { m with
            items := m.items.kmalloc junk
            work := some m.items.fresh
            isr := .testWork }
  | .testWork =>
      some { m with isr := if m.work.isSome then .initWork else .leave }
  | .initWork =>
      m.work.map fun p =>
        { m with
          items := m.items.update p fun v => { v with initialised := true }
          isr := .queueWork }
  | .queueWork =>
      m.work.map fun p =>
        { m with
          items := m.items.touch p
          wq := m.wq.queueWork p
          isr := .leave }
  | .leave => some { m with isr := .idle }

/-- One statement of `my_work_func` on item `p`. -/
def myWorkFunc (items : Slab MyWork) (p : Nat) :
    WorkPc → Option (Slab MyWork × WorkPc)
  | .msleep => some (items, .setYear)
  | .setYear =>
      some (items.update p fun v => { v with year := 2026 }, .setMonth)
  | .setMonth => some (items.update p fun v => { v with month := 5 }, .setDay)
  | .setDay => some (items.update p fun v => { v with day := 27 }, .print)
  | .print => some (items.touch p, .free)
  | .free => some (items.kfree p, .returned)
  | .returned => none

/-- The items that wait or run. -/
def outstanding (q : Workqueue WorkPc) : List Nat :=
  q.queue ++ (q.workers.filter fun w => w.pc != .returned).map (·.item)

/-- One statement of `simple_workqueue_exit`.  `free_irq` waits for a handler
that is running. -/
def simpleWorkqueueExit (m : Module) : ExitPc → Option Module
  | .loaded => some { m with exitPc := .freeIrq }
  | .freeIrq =>
      if m.isr = .idle then
        some { m with line := m.line.freeIrq, exitPc := .freeGpio }
      else none
  | .freeGpio => some { m with switchRequested := false, exitPc := .flush }
  | .flush => some { m with exitPc := .flushing (outstanding m.wq) }
  | .flushing found =>
      if ∀ p ∈ found, p ∉ outstanding m.wq then
        some { m with exitPc := .destroy }
      else none
  | .destroy => some { m with exitPc := .returned }
  | .returned => none

/-- One step of the module.  The handler is not re-entered; a worker that
takes an item unlinks it. -/
def step (m : Module) : Move → Option Module
  | .interrupt =>
      if m.line.enabled = true ∧ m.isr = .idle then
        some { m with isr := .testWq }
      else none
  | .isr mem => simpleWorkqueueIsr m mem m.isr
  | .start p =>
      (m.wq.start .msleep p).map fun q =>
        { m with items := m.items.touch p, wq := q }
  | .work i =>
      match m.wq.workers[i]? with
      | none => none
      | some w =>
          (myWorkFunc m.items w.item w.pc).map fun (items, pc) =>
            { m with items := items, wq := m.wq.goOn i w.item pc }
  | .exit => simpleWorkqueueExit m m.exitPc

/-- Everything one step can do. -/
inductive Step (m : Module) : Move → Module → Prop where
  | interrupt (hen : m.line.enabled = true) (hidle : m.isr = .idle) :
      Step m .interrupt { m with isr := .testWq }
  | testWq (mem : Option MyWork) (hpc : m.isr = .testWq) :
      Step m (.isr mem)
        { m with isr := if m.wqCreated then .allocate else .leave }
  | noMemory (hpc : m.isr = .allocate) :
      Step m (.isr none) { m with work := none, isr := .testWork }
  | allocate (junk : MyWork) (hpc : m.isr = .allocate) :
      Step m (.isr (some junk))
        { m with
          items := m.items.kmalloc junk
          work := some m.items.fresh
          isr := .testWork }
  | testWork (mem : Option MyWork) (hpc : m.isr = .testWork) :
      Step m (.isr mem)
        { m with isr := if m.work.isSome then .initWork else .leave }
  | initWork (mem : Option MyWork) (p : Nat) (hpc : m.isr = .initWork)
      (hwork : m.work = some p) :
      Step m (.isr mem)
        { m with
          items := m.items.update p fun v => { v with initialised := true }
          isr := .queueWork }
  | queueWork (mem : Option MyWork) (p : Nat) (hpc : m.isr = .queueWork)
      (hwork : m.work = some p) :
      Step m (.isr mem)
        { m with
          items := m.items.touch p
          wq := m.wq.queueWork p
          isr := .leave }
  | leave (mem : Option MyWork) (hpc : m.isr = .leave) :
      Step m (.isr mem) { m with isr := .idle }
  | start (p : Nat) (q : Workqueue WorkPc) (hq : m.wq.start .msleep p = some q) :
      Step m (.start p) { m with items := m.items.touch p, wq := q }
  | work (i : Nat) (w : Worker WorkPc) (items : Slab MyWork) (pc : WorkPc)
      (hw : m.wq.workers[i]? = some w)
      (hfunc : myWorkFunc m.items w.item w.pc = some (items, pc)) :
      Step m (.work i) { m with items := items, wq := m.wq.goOn i w.item pc }
  | call (hpc : m.exitPc = .loaded) :
      Step m .exit { m with exitPc := .freeIrq }
  | freeIrq (hpc : m.exitPc = .freeIrq) (hidle : m.isr = .idle) :
      Step m .exit { m with line := m.line.freeIrq, exitPc := .freeGpio }
  | freeGpio (hpc : m.exitPc = .freeGpio) :
      Step m .exit { m with switchRequested := false, exitPc := .flush }
  | flush (hpc : m.exitPc = .flush) :
      Step m .exit { m with exitPc := .flushing (outstanding m.wq) }
  | flushed (found : List Nat) (hpc : m.exitPc = .flushing found)
      (hdone : ∀ p ∈ found, p ∉ outstanding m.wq) :
      Step m .exit { m with exitPc := .destroy }
  | destroy (hpc : m.exitPc = .destroy) :
      Step m .exit { m with exitPc := .returned }

theorem isr_step {m n : Module} {mem : Option MyWork}
    (h : simpleWorkqueueIsr m mem m.isr = some n) : Step m (.isr mem) n := by
  cases hpc : m.isr with
  | idle =>
      rw [hpc] at h
      cases h
  | testWq =>
      rw [hpc] at h
      cases h
      exact .testWq mem hpc
  | allocate =>
      rw [hpc] at h
      cases mem with
      | none =>
          cases h
          exact .noMemory hpc
      | some junk =>
          cases h
          exact .allocate junk hpc
  | testWork =>
      rw [hpc] at h
      cases h
      exact .testWork mem hpc
  | initWork =>
      rw [hpc] at h
      obtain ⟨p, hp, rfl⟩ := Option.map_eq_some_iff.mp h
      exact .initWork mem p hpc hp
  | queueWork =>
      rw [hpc] at h
      obtain ⟨p, hp, rfl⟩ := Option.map_eq_some_iff.mp h
      exact .queueWork mem p hpc hp
  | leave =>
      rw [hpc] at h
      cases h
      exact .leave mem hpc

theorem exit_step {m n : Module}
    (h : simpleWorkqueueExit m m.exitPc = some n) : Step m .exit n := by
  cases hpc : m.exitPc with
  | loaded =>
      rw [hpc] at h
      cases h
      exact .call hpc
  | freeIrq =>
      rw [hpc] at h
      by_cases hidle : m.isr = .idle
      · rw [simpleWorkqueueExit, if_pos hidle] at h
        cases h
        exact .freeIrq hpc hidle
      · rw [simpleWorkqueueExit, if_neg hidle] at h
        cases h
  | freeGpio =>
      rw [hpc] at h
      cases h
      exact .freeGpio hpc
  | flush =>
      rw [hpc] at h
      cases h
      exact .flush hpc
  | flushing found =>
      rw [hpc] at h
      by_cases hdone : ∀ p ∈ found, p ∉ outstanding m.wq
      · rw [simpleWorkqueueExit, if_pos hdone] at h
        cases h
        exact .flushed found hpc hdone
      · rw [simpleWorkqueueExit, if_neg hdone] at h
        cases h
  | destroy =>
      rw [hpc] at h
      cases h
      exact .destroy hpc
  | returned =>
      rw [hpc] at h
      cases h

theorem step_step {m n : Module} {mv : Move} (h : step m mv = some n) :
    Step m mv n := by
  cases mv with
  | interrupt =>
      by_cases hen : m.line.enabled = true ∧ m.isr = .idle
      · rw [step, if_pos hen] at h
        cases h
        exact .interrupt hen.1 hen.2
      · rw [step, if_neg hen] at h
        cases h
  | isr mem => exact isr_step h
  | start p =>
      obtain ⟨q, hq, rfl⟩ := Option.map_eq_some_iff.mp h
      exact .start p q hq
  | work i =>
      cases hw : m.wq.workers[i]? with
      | none => simp [step, hw] at h
      | some w =>
          simp only [step, hw, Option.map_eq_some_iff] at h
          obtain ⟨⟨items, pc⟩, hfunc, rfl⟩ := h
          exact .work i w items pc hw hfunc
  | exit => exact exit_step h

/-! ## Who has an item -/

/-- The item in the hands of the handler. -/
def Module.held (m : Module) : Option Nat :=
  match m.isr with
  | .testWork => m.work
  | .initWork => m.work
  | .queueWork => m.work
  | _ => none

/-- 1 for the item in the hands of the handler. -/
def Module.holds (m : Module) (p : Nat) : Nat :=
  if m.held = some p then 1 else 0

/-- Every item has one owner, and is live as long as it has not been run to
its end. -/
structure Owned (m : Module) : Prop where
  sound : m.items.Sound
  owner : ∀ p, m.wq.places p + m.holds p = if p < m.items.fresh then 1 else 0
  held : ∀ p, m.held = some p → m.items.live p = true
  queued : ∀ p ∈ m.wq.queue, m.items.live p = true
  worker : ∀ (i : Nat) (w : Worker WorkPc), m.wq.workers[i]? = some w →
    (m.items.live w.item = true ↔ w.pc ≠ .returned)

theorem init_owned (created : Bool) (gpioRet ret : Int) :
    Owned (simpleWorkqueueInit created gpioRet ret) := by
  refine
    { sound := Slab.sound_empty
      owner := fun p => rfl
      held := fun p h => by cases h
      queued := fun p h => absurd h List.not_mem_nil
      worker := fun i w h => ?_ }
  simp [simpleWorkqueueInit, Workqueue.createWorkqueue] at h

/-- A step that touches neither the items nor the work queue. -/
theorem Owned.congr {m n : Module} (h : Owned m) (hitems : n.items = m.items)
    (hwq : n.wq = m.wq) (hheld : n.held = m.held) : Owned n := by
  have hholds : ∀ p, n.holds p = m.holds p := by
    intro p
    unfold Module.holds
    rw [hheld]
  refine
    { sound := ?_
      owner := fun p => ?_
      held := ?_
      queued := ?_
      worker := ?_ }
  · rw [hitems]
    exact h.sound
  · rw [hitems, hwq, hholds]
    exact h.owner p
  · rw [hitems, hheld]
    exact h.held
  · rw [hitems, hwq]
    exact h.queued
  · rw [hitems, hwq]
    exact h.worker

theorem holds_of_held {m : Module} {p : Nat} (h : m.held = some p) :
    m.holds p = 1 := if_pos h

/-- An item in the hands of the handler is nowhere else. -/
theorem Owned.places_of_held {m : Module} (h : Owned m) {p : Nat}
    (hp : m.held = some p) : m.wq.places p = 0 := by
  have howner := h.owner p
  rw [holds_of_held hp] at howner
  split at howner <;> omega

theorem Owned.lt_fresh {m : Module} (h : Owned m) {p : Nat}
    (hp : 0 < m.wq.places p) : p < m.items.fresh := by
  have howner := h.owner p
  split at howner
  · assumption
  · omega

theorem Owned.places_le {m : Module} (h : Owned m) (p : Nat) :
    m.wq.places p ≤ 1 := by
  have howner := h.owner p
  split at howner <;> omega

/-! ### The handler -/

/-- `kmalloc` gives the handler a new item. -/
theorem Owned.allocate {m : Module} (h : Owned m) (junk : MyWork)
    (hpc : m.isr = .allocate) :
    Owned { m with
      items := m.items.kmalloc junk
      work := some m.items.fresh
      isr := .testWork } := by
  have hnone : ∀ p, m.holds p = 0 := by
    intro p
    simp [Module.holds, Module.held, hpc]
  refine
    { sound := h.sound.kmalloc junk
      owner := fun p => ?_
      held := fun p hp => ?_
      queued := fun p hp => ?_
      worker := fun i w hw => ?_ }
  · have howner := h.owner p
    rw [hnone] at howner
    show m.wq.places p + (if some m.items.fresh = some p then 1 else 0) =
      if p < (m.items.kmalloc junk).fresh then 1 else 0
    rw [Slab.fresh_kmalloc]
    by_cases hp : m.items.fresh = p
    · rw [if_neg (by omega)] at howner
      rw [if_pos (congrArg some hp), if_pos (by omega)]
      omega
    · rw [if_neg (fun heq => hp (Option.some.inj heq))]
      split at howner
      · rw [if_pos (by omega)]
        omega
      · rw [if_neg (by omega)]
        omega
  · have hfresh : m.items.fresh = p := Option.some.inj hp
    show (m.items.kmalloc junk).live p = true
    rw [Slab.live_kmalloc, ← hfresh]
    simp
  · show (m.items.kmalloc junk).live p = true
    rw [Slab.live_kmalloc, h.queued p hp]
    rfl
  · have hlt : w.item < m.items.fresh :=
      h.lt_fresh (Nat.lt_of_lt_of_le (Workqueue.executions_pos hw)
        (Workqueue.executions_le_places m.wq w.item))
    have hne : (w.item == m.items.fresh) = false := by
      simpa using Nat.ne_of_lt hlt
    show (m.items.kmalloc junk).live w.item = true ↔ _
    rw [Slab.live_kmalloc, hne, Bool.or_false]
    exact h.worker i w hw

/-- A store to an item that leaves it where it is. -/
theorem Owned.update {m n : Module} (h : Owned m) {p : Nat}
    {f : MyWork → MyWork} (hp : m.items.live p = true)
    (hitems : n.items = m.items.update p f) (hwq : n.wq = m.wq)
    (hheld : n.held = m.held) : Owned n := by
  have hmid : Owned { m with items := m.items.update p f } := by
    refine
      { sound := h.sound.update hp f
        owner := fun r => ?_
        held := fun r hr => ?_
        queued := fun r hr => ?_
        worker := fun i w hw => ?_ }
    · show m.wq.places r + m.holds r =
        if r < (m.items.update p f).fresh then 1 else 0
      rw [Slab.fresh_update]
      exact h.owner r
    · exact (Slab.live_update m.items p r f).trans (h.held r hr)
    · exact (Slab.live_update m.items p r f).trans (h.queued r hr)
    · show (m.items.update p f).live w.item = true ↔ _
      rw [Slab.live_update]
      exact h.worker i w hw
  exact hmid.congr hitems hwq hheld

/-- `queue_work` takes the item out of the handler's hands. -/
theorem Owned.queueWork {m : Module} (h : Owned m) {p : Nat}
    (hpc : m.isr = .queueWork) (hwork : m.work = some p) :
    Owned { m with
      items := m.items.touch p
      wq := m.wq.queueWork p
      isr := .leave } := by
  have hheld : m.held = some p := by simp [Module.held, hpc, hwork]
  have hlive := h.held p hheld
  have hplaces := h.places_of_held hheld
  have hqueue : p ∉ m.wq.queue := by
    intro hmem
    have hpos := Workqueue.places_pos_of_queued hmem
    omega
  rw [Slab.touch_of_live hlive]
  refine
    { sound := h.sound
      owner := fun r => ?_
      held := fun r hr => by cases hr
      queued := fun r hr => ?_
      worker := fun i w hw => ?_ }
  · have howner := h.owner r
    show (m.wq.queueWork p).places r + 0 =
      if r < m.items.fresh then 1 else 0
    rw [Workqueue.places_queueWork hqueue, ← howner]
    unfold Module.holds
    rw [hheld]
    by_cases hr : p = r
    · rw [if_pos hr, if_pos (congrArg some hr)]
    · rw [if_neg hr, if_neg (fun heq => hr (Option.some.inj heq))]
  · simp only [Workqueue.queueWork, if_neg hqueue, List.mem_append,
      List.mem_singleton] at hr
    rcases hr with hr | rfl
    · exact h.queued r hr
    · exact hlive
  · simp only [Workqueue.queueWork, if_neg hqueue] at hw
    exact h.worker i w hw

/-! ### The workers -/

theorem Owned.start {m : Module} (h : Owned m) {p : Nat}
    {q : Workqueue WorkPc} (hq : m.wq.start .msleep p = some q) :
    Owned { m with items := m.items.touch p, wq := q } := by
  have hplaces := Workqueue.places_start hq
  obtain ⟨hp, rfl⟩ := Workqueue.start_cases hq
  have hlive := h.queued p hp
  rw [Slab.touch_of_live hlive]
  refine
    { sound := h.sound
      owner := fun r => ?_
      held := h.held
      queued := fun r hr => h.queued r (List.mem_of_mem_erase hr)
      worker := fun i w hw => ?_ }
  · show Workqueue.places ⟨_, _⟩ r + m.holds r = _
    rw [hplaces]
    exact h.owner r
  · rcases lookup_append_cases hw with hold | ⟨-, rfl⟩
    · exact h.worker i w hold
    · exact iff_of_true hlive (fun h => by cases h)

/-- A statement of `my_work_func` stores to the item, or frees it and is the
last. -/
theorem myWorkFunc_cases {items items' : Slab MyWork} {p : Nat}
    {pc pc' : WorkPc} (h : myWorkFunc items p pc = some (items', pc')) :
    (pc = .free ∧ items' = items.kfree p ∧ pc' = .returned) ∨
      (pc ≠ .free ∧ pc ≠ .returned ∧ pc' ≠ .returned ∧
        (items' = items ∨ items' = items.touch p ∨
          ∃ f, items' = items.update p f)) := by
  cases pc with
  | msleep =>
      cases h
      exact Or.inr ⟨by decide, by decide, by decide, Or.inl rfl⟩
  | setYear =>
      cases h
      exact Or.inr ⟨by decide, by decide, by decide, Or.inr (Or.inr ⟨_, rfl⟩)⟩
  | setMonth =>
      cases h
      exact Or.inr ⟨by decide, by decide, by decide, Or.inr (Or.inr ⟨_, rfl⟩)⟩
  | setDay =>
      cases h
      exact Or.inr ⟨by decide, by decide, by decide, Or.inr (Or.inr ⟨_, rfl⟩)⟩
  | print =>
      cases h
      exact Or.inr ⟨by decide, by decide, by decide, Or.inr (Or.inl rfl)⟩
  | free =>
      cases h
      exact Or.inl ⟨rfl, rfl, rfl⟩
  | returned => cases h

/-- A worker goes on, and keeps its item. -/
theorem Owned.goOn {m : Module} (h : Owned m) {i : Nat} {w : Worker WorkPc}
    {pc : WorkPc} (hw : m.wq.workers[i]? = some w) (hpc : w.pc ≠ .returned)
    (hpc' : pc ≠ .returned) :
    Owned { m with wq := m.wq.goOn i w.item pc } := by
  refine
    { sound := h.sound
      owner := fun r => ?_
      held := h.held
      queued := h.queued
      worker := fun j w' hw' => ?_ }
  · show (m.wq.goOn i w.item pc).places r + m.holds r = _
    rw [Workqueue.places_goOn hw]
    exact h.owner r
  · rcases lookup_set_cases hw hw' with ⟨-, rfl⟩ | ⟨-, hold⟩
    · exact iff_of_true ((h.worker i w hw).mpr hpc) hpc'
    · exact h.worker j w' hold

/-- Two workers have different items. -/
theorem Owned.item_ne {m : Module} (h : Owned m) {i j : Nat}
    {w w' : Worker WorkPc} (hij : i ≠ j) (hw : m.wq.workers[i]? = some w)
    (hw' : m.wq.workers[j]? = some w') : w.item ≠ w'.item := by
  intro heq
  have htwo := add_le_total (Worker.has w.item) hij hw hw'
  have hone := h.places_le w.item
  have hexec := Workqueue.executions_le_places m.wq w.item
  unfold Workqueue.executions at hexec
  have hhas : Worker.has w.item w = 1 := if_pos rfl
  have hhas' : Worker.has w.item w' = 1 := if_pos heq.symm
  omega

/-- A worker frees its item. -/
theorem Owned.free {m : Module} (h : Owned m) {i : Nat} {w : Worker WorkPc}
    (hw : m.wq.workers[i]? = some w) (hpc : w.pc = .free) :
    Owned { m with
      items := m.items.kfree w.item
      wq := m.wq.goOn i w.item .returned } := by
  have hlive : m.items.live w.item = true := by
    apply (h.worker i w hw).mpr
    rw [hpc]
    decide
  have hexec := Workqueue.executions_pos hw
  have hle := Workqueue.executions_le_places m.wq w.item
  have hother : ∀ r, w.item ≠ r →
      (m.items.kfree w.item).live r = m.items.live r := by
    intro r hr
    rw [Slab.live_kfree]
    simp [hr]
  refine
    { sound := h.sound.kfree hlive
      owner := fun r => ?_
      held := fun r hr => ?_
      queued := fun r hr => ?_
      worker := fun j w' hw' => ?_ }
  · show (m.wq.goOn i w.item .returned).places r + m.holds r =
      if r < (m.items.kfree w.item).fresh then 1 else 0
    rw [Workqueue.places_goOn hw, Slab.fresh_kfree]
    exact h.owner r
  · have hne : w.item ≠ r := by
      intro heq
      have hnone := h.places_of_held (p := r) hr
      rw [heq] at hexec hle
      omega
    exact (hother r hne).trans (h.held r hr)
  · have hne : w.item ≠ r := by
      intro heq
      have hone := h.places_le r
      have hcount := List.count_pos_iff.mpr (show r ∈ m.wq.queue from hr)
      unfold Workqueue.places at hone
      rw [heq] at hexec
      omega
    exact (hother r hne).trans (h.queued r hr)
  · rcases lookup_set_cases hw hw' with ⟨-, rfl⟩ | ⟨hij, hold⟩
    · refine iff_of_false ?_ (fun hne => hne rfl)
      show ¬ (m.items.kfree w.item).live w.item = true
      rw [Slab.live_kfree]
      simp
    · have hne := h.item_ne hij hw hold
      show (m.items.kfree w.item).live w'.item = true ↔ _
      rw [hother w'.item hne]
      exact h.worker j w' hold

theorem Owned.work {m : Module} (h : Owned m) {i : Nat} {w : Worker WorkPc}
    {items : Slab MyWork} {pc : WorkPc} (hw : m.wq.workers[i]? = some w)
    (hfunc : myWorkFunc m.items w.item w.pc = some (items, pc)) :
    Owned { m with items := items, wq := m.wq.goOn i w.item pc } := by
  rcases myWorkFunc_cases hfunc with
    ⟨hfree, rfl, rfl⟩ | ⟨-, hpc, hpc', hitems⟩
  · exact h.free hw hfree
  · have hlive := (h.worker i w hw).mpr hpc
    have hon := h.goOn hw hpc hpc'
    rcases hitems with rfl | rfl | ⟨f, rfl⟩
    · exact hon
    · rw [Slab.touch_of_live hlive]
      exact hon
    · exact hon.update hlive rfl rfl rfl

theorem Owned.step {m n : Module} {mv : Move} (h : Owned m)
    (hst : step m mv = some n) : Owned n := by
  cases step_step hst with
  | interrupt hen hidle =>
      exact h.congr rfl rfl (by simp [Module.held, hidle])
  | testWq mem hpc =>
      refine h.congr rfl rfl ?_
      cases hc : m.wqCreated <;> simp [Module.held, hpc]
  | noMemory hpc => exact h.congr rfl rfl (by simp [Module.held, hpc])
  | allocate junk hpc => exact h.allocate junk hpc
  | testWork mem hpc =>
      refine h.congr rfl rfl ?_
      cases hw : m.work <;> simp [Module.held, hpc, hw]
  | initWork mem p hpc hwork =>
      have hheld : m.held = some p := by simp [Module.held, hpc, hwork]
      refine h.update (h.held p hheld) rfl rfl ?_
      simp [Module.held, hpc]
  | queueWork mem p hpc hwork => exact h.queueWork hpc hwork
  | leave mem hpc => exact h.congr rfl rfl (by simp [Module.held, hpc])
  | start p q hq => exact h.start hq
  | work i w items pc hw hfunc => exact h.work hw hfunc
  | _ => exact h.congr rfl rfl rfl

/-! ## What the exit function has taken down -/

/-- `free_irq` has returned. -/
def ExitPc.irqFreed : ExitPc → Bool
  | .loaded => false
  | .freeIrq => false
  | _ => true

/-- `flush_workqueue` has returned. -/
def ExitPc.flushed : ExitPc → Bool
  | .destroy => true
  | .returned => true
  | _ => false

/-- No handler after `free_irq`, and no item that `flush_workqueue` does not
know. -/
structure Torn (m : Module) : Prop where
  isr : m.exitPc.irqFreed = true → m.isr = .idle ∧ m.line.handled = false
  found : ∀ found, m.exitPc = .flushing found →
    ∀ p ∈ outstanding m.wq, p ∈ found
  drained : m.exitPc.flushed = true → outstanding m.wq = []

theorem init_torn (created : Bool) (gpioRet ret : Int) :
    Torn (simpleWorkqueueInit created gpioRet ret) := by
  refine
    { isr := fun h => by cases h
      found := fun found h => by cases h
      drained := fun h => by cases h }

theorem mem_outstanding {q : Workqueue WorkPc} {p : Nat} :
    p ∈ outstanding q ↔ p ∈ q.queue ∨
      ∃ w ∈ q.workers, w.pc ≠ .returned ∧ w.item = p := by
  simp [outstanding, List.mem_append, List.mem_map, List.mem_filter,
    and_assoc]

/-- A worker that takes an item adds nothing to what is to be done. -/
theorem outstanding_start {q q' : Workqueue WorkPc} {p : Nat}
    (h : q.start .msleep p = some q') :
    ∀ r ∈ outstanding q', r ∈ outstanding q := by
  obtain ⟨hp, rfl⟩ := Workqueue.start_cases h
  intro r hr
  rw [mem_outstanding] at hr ⊢
  rcases hr with hr | ⟨w, hw, hpc, hitem⟩
  · exact Or.inl (List.mem_of_mem_erase hr)
  · rcases List.mem_append.mp hw with hw | hw
    · exact Or.inr ⟨w, hw, hpc, hitem⟩
    · rw [List.mem_singleton.mp hw] at hitem
      rw [← hitem]
      exact Or.inl hp

/-- Nor does one that goes on. -/
theorem outstanding_goOn {q : Workqueue WorkPc} {i : Nat} {w : Worker WorkPc}
    {pc : WorkPc} (hw : q.workers[i]? = some w) (hpc : w.pc ≠ .returned) :
    ∀ r ∈ outstanding (q.goOn i w.item pc), r ∈ outstanding q := by
  intro r hr
  rw [mem_outstanding] at hr ⊢
  rcases hr with hr | ⟨w', hw', hpc', hitem⟩
  · exact Or.inl hr
  · rcases List.mem_or_eq_of_mem_set hw' with hold | rfl
    · exact Or.inr ⟨w', hold, hpc', hitem⟩
    · exact Or.inr ⟨w, List.mem_of_getElem? hw, hpc, hitem⟩

/-- A step of a worker. -/
theorem Torn.worker {m : Module} {items : Slab MyWork} {q : Workqueue WorkPc}
    (h : Torn m) (hsub : ∀ p ∈ outstanding q, p ∈ outstanding m.wq) :
    Torn { m with items := items, wq := q } := by
  refine
    { isr := h.isr
      found := fun found hpc p hp => h.found found hpc p (hsub p hp)
      drained := fun hpc => ?_ }
  apply List.eq_nil_iff_forall_not_mem.mpr
  intro p hp
  have hmem := hsub p hp
  rw [h.drained hpc] at hmem
  exact absurd hmem List.not_mem_nil

/-- A step of the handler: `free_irq` has not returned. -/
theorem Torn.handler {m n : Module} (h : Torn m) (hisr : m.isr ≠ .idle)
    (hpc : n.exitPc = m.exitPc) : Torn n := by
  have hearly : n.exitPc.irqFreed = false := by
    rw [hpc]
    cases hf : m.exitPc.irqFreed with
    | false => rfl
    | true => exact absurd (h.isr hf).1 hisr
  refine
    { isr := fun hfreed => ?_
      found := fun found hfound => ?_
      drained := fun hdone => ?_ }
  · rw [hearly] at hfreed
    cases hfreed
  · rw [hfound] at hearly
    cases hearly
  · cases hx : n.exitPc with
    | destroy =>
        rw [hx] at hearly
        cases hearly
    | returned =>
        rw [hx] at hearly
        cases hearly
    | _ =>
        rw [hx] at hdone
        cases hdone

theorem Torn.step {m n : Module} {mv : Move} (h : Torn m)
    (hst : step m mv = some n) : Torn n := by
  cases step_step hst with
  | interrupt hen hidle =>
      refine ⟨fun hfreed => ?_, h.found, h.drained⟩
      have hoff := (h.isr hfreed).2
      cases hoff.symm.trans (IrqLine.handled_of_enabled hen)
  | testWq mem hpc => exact h.handler (by rw [hpc]; decide) rfl
  | noMemory hpc => exact h.handler (by rw [hpc]; decide) rfl
  | allocate junk hpc => exact h.handler (by rw [hpc]; decide) rfl
  | testWork mem hpc => exact h.handler (by rw [hpc]; decide) rfl
  | initWork mem p hpc hwork => exact h.handler (by rw [hpc]; decide) rfl
  | queueWork mem p hpc hwork => exact h.handler (by rw [hpc]; decide) rfl
  | leave mem hpc => exact h.handler (by rw [hpc]; decide) rfl
  | start p q hq => exact h.worker (outstanding_start hq)
  | work i w items pc hw hfunc =>
      refine h.worker (outstanding_goOn hw ?_)
      intro hpc
      rw [hpc] at hfunc
      cases hfunc
  | call hpc =>
      exact ⟨fun h => (by cases h), fun _ h => (by cases h),
        fun h => (by cases h)⟩
  | freeIrq hpc hidle =>
      refine ⟨fun _ => ⟨hidle, ?_⟩, fun _ h => (by cases h),
        fun h => (by cases h)⟩
      exact IrqLine.handled_freeIrq m.line
  | freeGpio hpc =>
      exact ⟨fun _ => h.isr (by rw [hpc]; rfl), fun _ h => (by cases h),
        fun h => (by cases h)⟩
  | flush hpc =>
      refine ⟨fun _ => h.isr (by rw [hpc]; rfl), fun found hfound p hp => ?_,
        fun h => (by cases h)⟩
      rw [← ExitPc.flushing.inj hfound]
      exact hp
  | flushed found hpc hdone =>
      refine ⟨fun _ => h.isr (by rw [hpc]; rfl), fun _ h => (by cases h),
        fun _ => ?_⟩
      apply List.eq_nil_iff_forall_not_mem.mpr
      intro p hp
      exact hdone p (h.found found hpc p hp) hp
  | destroy hpc =>
      exact ⟨fun _ => h.isr (by rw [hpc]; rfl), fun _ h => (by cases h),
        fun _ => h.drained (by rw [hpc]; rfl)⟩

/-! ## The workers come to an end -/

/-- The statements of `my_work_func` that are left. -/
def WorkPc.left : WorkPc → Nat
  | .msleep => 6
  | .setYear => 5
  | .setMonth => 4
  | .setDay => 3
  | .print => 2
  | .free => 1
  | .returned => 0

/-- The steps that the workers have to take. -/
def left (q : Workqueue WorkPc) : Nat :=
  7 * q.queue.length + total (fun w => w.pc.left) q.workers

/-- A step of a worker. -/
def Move.ofWorker : Move → Bool
  | .start _ => true
  | .work _ => true
  | _ => false

theorem left_of_myWorkFunc {items items' : Slab MyWork} {p : Nat}
    {pc pc' : WorkPc} (h : myWorkFunc items p pc = some (items', pc')) :
    pc'.left + 1 = pc.left := by
  cases pc with
  | returned => cases h
  | _ =>
      cases h
      rfl

theorem left_step {m n : Module} {mv : Move} (hw : mv.ofWorker = true)
    (hst : step m mv = some n) : left n.wq + 1 = left m.wq := by
  cases step_step hst with
  | start p q hq =>
      obtain ⟨hp, rfl⟩ := Workqueue.start_cases hq
      have hlen := List.length_erase_of_mem hp
      have hpos := List.length_pos_of_mem hp
      unfold left
      dsimp only
      rw [total_append_one, hlen]
      show 7 * (m.wq.queue.length - 1) + (_ + 6) + 1 = _
      omega
  | work i w items pc hlook hfunc =>
      have hset := total_set (fun w : Worker WorkPc => w.pc.left)
        ⟨w.item, pc⟩ hlook
      have hone := left_of_myWorkFunc hfunc
      unfold left Workqueue.goOn
      dsimp only at hset ⊢
      omega
  | _ => cases hw

theorem myWorkFunc_enabled (items : Slab MyWork) (p : Nat) {pc : WorkPc}
    (h : pc ≠ .returned) : ∃ r, myWorkFunc items p pc = some r := by
  cases pc with
  | returned => exact absurd rfl h
  | _ => exact ⟨_, rfl⟩

/-- As long as there is something left, some worker can go on. -/
theorem worker_enabled {m : Module} (h : 0 < left m.wq) :
    ∃ mv n, mv.ofWorker = true ∧ step m mv = some n := by
  cases hq : m.wq.queue with
  | cons p ps =>
      have hp : p ∈ m.wq.queue := by
        rw [hq]
        exact List.mem_cons_self
      obtain ⟨q, hstart⟩ : ∃ q, m.wq.start .msleep p = some q :=
        ⟨_, if_pos hp⟩
      refine ⟨.start p, { m with items := m.items.touch p, wq := q }, rfl, ?_⟩
      rw [step, hstart]
      rfl
  | nil =>
      unfold left at h
      rw [hq, List.length_nil, Nat.mul_zero, Nat.zero_add] at h
      obtain ⟨i, w, hw, hpos⟩ := exists_of_total_pos _ h
      have hne : w.pc ≠ .returned := by
        intro hpc
        rw [hpc] at hpos
        exact absurd hpos (by decide)
      obtain ⟨⟨items, pc⟩, hr⟩ := myWorkFunc_enabled m.items w.item hne
      refine ⟨.work i,
        { m with items := items, wq := m.wq.goOn i w.item pc }, rfl, ?_⟩
      simp only [step, hw, hr, Option.map_some]

/-- The workers can finish all there is, whatever else is going on, and they
cannot take more steps than that. -/
theorem workers_finish (m : Module) :
    (∃ mvs n, (∀ mv ∈ mvs, mv.ofWorker = true) ∧
        run step m mvs = some n ∧ left n.wq = 0) ∧
      ∀ mvs n, (∀ mv ∈ mvs, mv.ofWorker = true) →
        run step m mvs = some n → mvs.length + left n.wq = left m.wq := by
  constructor
  · generalize hk : left m.wq = k
    induction k generalizing m with
    | zero => exact ⟨[], m, fun mv h => absurd h List.not_mem_nil, rfl, hk⟩
    | succ k ih =>
        obtain ⟨mv, n, hmv, hst⟩ := worker_enabled (m := m) (by omega)
        have hone := left_step hmv hst
        obtain ⟨mvs, u, hmvs, hrun, hu⟩ := ih n (by omega)
        refine ⟨mv :: mvs, u, fun x hx => ?_, ?_, hu⟩
        · rcases List.mem_cons.mp hx with rfl | hx
          · exact hmv
          · exact hmvs x hx
        · rw [run_cons, hst]
          exact hrun
  · intro mvs
    induction mvs generalizing m with
    | nil =>
        intro n _ hrun
        rw [run_nil, Option.some.injEq] at hrun
        rw [hrun]
        exact Nat.zero_add _
    | cons mv mvs ih =>
        intro n hall hrun
        obtain ⟨a, ha, hrest⟩ := run_cons_some hrun
        have hone := left_step (hall mv List.mem_cons_self) ha
        have hlater := ih a n (fun x hx => hall x (List.mem_cons_of_mem mv hx))
          hrest
        rw [List.length_cons]
        omega

/-! ## The result -/

/-- Item `p` was run once and freed once. -/
def RunOnce (m : Module) (p : Nat) : Prop :=
  m.wq.executions p = 1 ∧ m.items.freeCount p = 1

/-- Nothing waits or runs: every item that the handler has handed over was
run once and freed once. -/
theorem Owned.runOnce {m : Module} (h : Owned m)
    (hdone : outstanding m.wq = []) {p : Nat} (hp : p < m.items.fresh)
    (hheld : m.held ≠ some p) : RunOnce m p := by
  have hnone : ∀ r, r ∉ outstanding m.wq := by
    rw [hdone]
    exact fun r => List.not_mem_nil
  have howner := h.owner p
  have hholds : m.holds p = 0 := if_neg hheld
  have hcount : m.wq.queue.count p = 0 := by
    apply List.count_eq_zero.mpr
    exact fun hmem => hnone p (mem_outstanding.mpr (Or.inl hmem))
  rw [if_pos hp, hholds, Workqueue.places, hcount] at howner
  have hexec : m.wq.executions p = 1 := by omega
  refine ⟨hexec, ?_⟩
  obtain ⟨i, w, hw, hpos⟩ := exists_of_total_pos (Worker.has p)
    (show 0 < total (Worker.has p) m.wq.workers by
      unfold Workqueue.executions at hexec
      omega)
  have hitem : w.item = p := by
    unfold Worker.has at hpos
    split at hpos
    · assumption
    · omega
  have hdead : ¬ m.items.live p = true := by
    rw [← hitem, h.worker i w hw]
    intro hpc
    exact hnone w.item (mem_outstanding.mpr
      (Or.inr ⟨w, List.mem_of_getElem? hw, hpc, rfl⟩))
  exact (h.sound.once p hp).resolve_left hdead

theorem outstanding_of_left {q : Workqueue WorkPc} (h : left q = 0) :
    outstanding q = [] := by
  unfold left at h
  apply List.eq_nil_iff_forall_not_mem.mpr
  intro p hp
  rcases mem_outstanding.mp hp with hq | ⟨w, hw, hpc, -⟩
  · have hpos := List.length_pos_of_mem hq
    omega
  · obtain ⟨i, hi⟩ := List.mem_iff_getElem?.mp hw
    have hle := le_total (fun w : Worker WorkPc => w.pc.left) hi
    have hzero : w.pc.left = 0 := by omega
    apply hpc
    cases hx : w.pc with
    | returned => rfl
    | _ =>
        rw [hx] at hzero
        cases hzero

/-! ### The handler comes to an end -/

/-- The handler is about to use `work`. -/
def IsrPc.handing : IsrPc → Bool
  | .initWork => true
  | .queueWork => true
  | _ => false

/-- Then there is an item. -/
def Handing (m : Module) : Prop :=
  m.isr.handing = true → m.work.isSome = true

theorem Handing.step {m n : Module} {mv : Move} (h : Handing m)
    (hst : step m mv = some n) : Handing n := by
  cases step_step hst with
  | interrupt hen hidle => exact fun hpc => by cases hpc
  | testWq mem hpc =>
      cases hc : m.wqCreated with
      | true => exact fun hpc => by cases hpc
      | false => exact fun hpc => by cases hpc
  | noMemory hpc => exact fun hpc => by cases hpc
  | allocate junk hpc => exact fun hpc => by cases hpc
  | testWork mem hpc =>
      cases hw : m.work with
      | none => exact fun hpc => by cases hpc
      | some p => exact fun _ => rfl
  | initWork mem p hpc hwork => exact fun _ => h (by rw [hpc]; rfl)
  | queueWork mem p hpc hwork => exact fun hpc => by cases hpc
  | leave mem hpc => exact fun hpc => by cases hpc
  | _ => exact h

/-- The statements that are left to the handler if its `kmalloc` fails. -/
def IsrPc.left : IsrPc → Nat
  | .idle => 0
  | .testWq => 6
  | .allocate => 5
  | .testWork => 4
  | .initWork => 3
  | .queueWork => 2
  | .leave => 1

theorem isr_enabled {m : Module} (h : Handing m) (hisr : m.isr ≠ .idle) :
    ∃ n, step m (.isr none) = some n ∧ n.isr.left < m.isr.left ∧
      n.items.fresh = m.items.fresh := by
  show ∃ n, simpleWorkqueueIsr m none m.isr = some n ∧ _
  unfold Handing at h
  cases hpc : m.isr with
  | idle => exact absurd hpc hisr
  | testWq =>
      refine ⟨_, rfl, ?_, rfl⟩
      cases m.wqCreated with
      | true => exact (by decide : IsrPc.allocate.left < IsrPc.testWq.left)
      | false => exact (by decide : IsrPc.leave.left < IsrPc.testWq.left)
  | allocate =>
      exact ⟨_, rfl, (by decide : IsrPc.testWork.left < IsrPc.allocate.left),
        rfl⟩
  | testWork =>
      refine ⟨_, rfl, ?_, rfl⟩
      cases m.work with
      | none => exact (by decide : IsrPc.leave.left < IsrPc.testWork.left)
      | some p => exact (by decide : IsrPc.initWork.left < IsrPc.testWork.left)
  | initWork =>
      obtain ⟨p, hp⟩ := Option.isSome_iff_exists.mp (h (by rw [hpc]; rfl))
      rw [simpleWorkqueueIsr, hp]
      exact ⟨_, rfl, (by decide : IsrPc.queueWork.left < IsrPc.initWork.left),
        Slab.fresh_update _ _ _⟩
  | queueWork =>
      obtain ⟨p, hp⟩ := Option.isSome_iff_exists.mp (h (by rw [hpc]; rfl))
      rw [simpleWorkqueueIsr, hp]
      exact ⟨_, rfl, (by decide : IsrPc.leave.left < IsrPc.queueWork.left),
        Slab.fresh_touch _ _⟩
  | leave =>
      exact ⟨_, rfl, (by decide : IsrPc.idle.left < IsrPc.leave.left), rfl⟩

/-- The handler can go to its end. -/
theorem isr_finishes {m : Module} (h : Handing m) :
    ∃ k n, run step m (List.replicate k (.isr none)) = some n ∧
      n.isr = .idle ∧ n.items.fresh = m.items.fresh := by
  generalize hk : m.isr.left = k
  induction k using Nat.strongRecOn generalizing m with
  | _ k ih =>
    by_cases hisr : m.isr = .idle
    · exact ⟨0, m, rfl, hisr, rfl⟩
    · obtain ⟨a, ha, hlt, hfresh⟩ := isr_enabled h hisr
      obtain ⟨j, n, hrun, hidle, hn⟩ :=
        ih a.isr.left (by omega) (h.step ha) rfl
      refine ⟨j + 1, n, ?_, hidle, hn.trans hfresh⟩
      rw [List.replicate_succ, run_cons, ha]
      exact hrun

/-- A worker does not allocate, and leaves the handler alone. -/
theorem worker_frame {m n : Module} {mv : Move} (hw : mv.ofWorker = true)
    (hst : step m mv = some n) :
    n.isr = m.isr ∧ n.items.fresh = m.items.fresh := by
  cases step_step hst with
  | start p q hq => exact ⟨rfl, Slab.fresh_touch _ _⟩
  | work i w items pc hlook hfunc =>
      refine ⟨rfl, ?_⟩
      rcases myWorkFunc_cases hfunc with
        ⟨-, rfl, -⟩ | ⟨-, -, -, rfl | rfl | ⟨f, rfl⟩⟩
      · exact Slab.fresh_kfree _ _
      · rfl
      · exact Slab.fresh_touch _ _
      · exact Slab.fresh_update _ _ _
  | _ => cases hw

theorem worker_frame_run {m n : Module} {mvs : List Move}
    (hw : ∀ mv ∈ mvs, mv.ofWorker = true) (hrun : run step m mvs = some n) :
    n.isr = m.isr ∧ n.items.fresh = m.items.fresh := by
  refine run_induct_along (C := fun _ mv => mv.ofWorker = true)
    (P := fun a : Module => a.isr = m.isr ∧ a.items.fresh = m.items.fresh)
    ?_ ⟨rfl, rfl⟩ (along_of_forall fun mv hmv _ => hw mv hmv) hrun
  intro a mv b ha hmv hst
  obtain ⟨hisr, hfresh⟩ := worker_frame hmv hst
  exact ⟨hisr.trans ha.1, hfresh.trans ha.2⟩

/-! ## The result -/

structure Invariant (m : Module) : Prop where
  owned : Owned m
  torn : Torn m
  handing : Handing m

theorem Invariant.run {m n : Module} {mvs : List Move} (h : Invariant m)
    (hrun : Transition.run step m mvs = some n) : Invariant n :=
  run_induct (fun _ _ _ h hst =>
    ⟨h.owned.step hst, h.torn.step hst, h.handing.step hst⟩) h hrun

theorem init_invariant (created : Bool) (gpioRet ret : Int) :
    Invariant (simpleWorkqueueInit created gpioRet ret) :=
  ⟨init_owned created gpioRet ret, init_torn created gpioRet ret,
    fun h => by cases h⟩

/-- The handler and the workers can finish all items that there are. -/
theorem Invariant.finish {m : Module} (h : Invariant m) :
    ∃ mvs n, (∀ mv ∈ mvs, mv = .isr none ∨ mv.ofWorker = true) ∧
      Transition.run step m mvs = some n ∧
      n.items.fresh = m.items.fresh ∧
      ∀ p < n.items.fresh, RunOnce n p := by
  obtain ⟨k, a, hisr, hidle, hfresh⟩ := isr_finishes h.handing
  obtain ⟨mvs, n, hmvs, hrun, hleft⟩ := (workers_finish a).1
  obtain ⟨hsame, hnew⟩ := worker_frame_run hmvs hrun
  have hn := (h.run hisr).run hrun
  refine ⟨List.replicate k (.isr none) ++ mvs, n, ?_, ?_,
    hnew.trans hfresh, ?_⟩
  · intro mv hmv
    rcases List.mem_append.mp hmv with hmv | hmv
    · exact Or.inl (List.eq_of_mem_replicate hmv)
    · exact Or.inr (hmvs mv hmv)
  · rw [run_append, hisr]
    exact hrun
  · intro p hp
    refine hn.owned.runOnce (outstanding_of_left hleft) hp ?_
    simp [Module.held, hsame, hidle]

/-- Item `p` is the one of the `p`-th interrupt whose `kmalloc` succeeded.  At
any time each item has been run at most once and freed at most once, and
nothing was read or written after it was freed.  When
`simple_workqueue_exit` has returned, nothing waits or runs, and every item
was run once and freed once.  That it comes to that does not depend on new
interrupts or on the exit function: the handler and the workers can finish
at any time, and the workers take no more than `left` steps. -/
theorem run_once {gpioRet ret : Int} {m : Module} {mvs : List Move}
    (hrun : run step (simpleWorkqueueInit true gpioRet ret) mvs = some m) :
    (∀ p, m.wq.executions p ≤ 1 ∧ m.items.freeCount p ≤ 1) ∧
      m.items.stale = 0 ∧
      (m.exitPc = .returned →
        outstanding m.wq = [] ∧ ∀ p < m.items.fresh, RunOnce m p) ∧
      (∃ mvs' n, (∀ mv ∈ mvs', mv = .isr none ∨ mv.ofWorker = true) ∧
        run step m mvs' = some n ∧ n.items.fresh = m.items.fresh ∧
        ∀ p < n.items.fresh, RunOnce n p) ∧
      ∀ mvs' n, (∀ mv ∈ mvs', mv.ofWorker = true) →
        run step m mvs' = some n → mvs'.length ≤ left m.wq := by
  have h := (init_invariant true gpioRet ret).run hrun
  refine ⟨fun p => ⟨?_, h.owned.sound.freeCount_le_one p⟩,
    h.owned.sound.stale, ?_, h.finish, ?_⟩
  · have hexec := Workqueue.executions_le_places m.wq p
    have hone := h.owned.places_le p
    omega
  · intro hret
    have hdone := h.torn.drained (by rw [hret]; rfl)
    have hidle := (h.torn.isr (by rw [hret]; rfl)).1
    refine ⟨hdone, fun p hp => h.owned.runOnce hdone hp ?_⟩
    simp [Module.held, hidle]
  · intro mvs' n hall hrun'
    have hlen := (workers_finish m).2 mvs' n hall hrun'
    omega

/-- The second interrupt comes while the item of the first one is being run,
and its handler runs while `simple_workqueue_exit` waits for it. -/
def twoInterruptsRun : List Move :=
  List.flatten
    [ [.interrupt]
    , List.replicate 6 (.isr (some ⟨false, 0, 0, 0⟩))
    , [.start 0, .work 0, .work 0, .exit, .interrupt]
    , List.replicate 6 (.isr (some ⟨true, 1, 2, 3⟩))
    , [.exit, .exit, .exit, .start 1]
    , List.replicate 4 (.work 0)
    , List.replicate 6 (.work 1)
    , [.exit, .exit] ]

theorem run_once_twoInterrupts :
    ∃ m, run step (simpleWorkqueueInit true 0 0) twoInterruptsRun = some m ∧
      m.exitPc = .returned ∧ m.items.fresh = 2 ∧ RunOnce m 0 ∧
      RunOnce m 1 := by
  have hend : (run step (simpleWorkqueueInit true 0 0) twoInterruptsRun).map
      (fun m => (m.exitPc, m.items.fresh)) = some (.returned, 2) := by
    decide +kernel
  obtain ⟨m, hrun, hm⟩ := Option.map_eq_some_iff.mp hend
  simp only [Prod.mk.injEq] at hm
  obtain ⟨-, hall⟩ := (run_once hrun).2.2.1 hm.1
  exact ⟨m, hrun, hm.1, hm.2, hall 0 (by omega), hall 1 (by omega)⟩

end EmbeddedSystem.Labs.SimpleWorkqueue
