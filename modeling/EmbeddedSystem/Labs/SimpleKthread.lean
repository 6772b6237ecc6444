import EmbeddedSystem.Labs.TimerUnload
import EmbeddedSystem.Verified.Kthread

/-!
# The thread of `simple_kthread`

`simple_kthread_init` creates a kernel thread and wakes it, and
`simple_kthread_exit` stops it and waits for it.  Until it is asked to stop,
the thread prints `jiffies`, sleeps for a second, and starts over.

The init function does not return after a failed `kthread_create`: it goes on
to wake the `NULL` it has just stored.  So a module that can be unloaded has
its thread.
-/

set_option autoImplicit false

namespace EmbeddedSystem.Labs.SimpleKthread

open EmbeddedSystem.Verified.Transition
open EmbeddedSystem.Verified.Kthread
open EmbeddedSystem.Labs.TimerUnload (msecsToJiffies)

/-- The jiffies that `msleep(1000)` sleeps through. -/
def pause (hz : Nat) : Nat := msecsToJiffies hz 1000 + 1

/-- The statements of `simple_kthread_func`. -/
inductive Func where
  | kthreadShouldStop
  | printk
  | msleep
deriving DecidableEq, Repr

/-- The global is the list of the printed `jiffies`. -/
def simpleKthreadFunc (hz : Nat) : ThreadFn (List Nat) Func where
  first := .kthreadShouldStop
  exec printed shouldStop jiffies
    | .kthreadShouldStop =>
        (printed, if shouldStop then .ret else .next .printk)
    | .printk => (printed ++ [jiffies], .next .msleep)
    | .msleep => (printed, .msleep (pause hz) .kthreadShouldStop)

inductive InitPc where
  | kthreadCreate
  | wakeUpProcess
  | ret
  | returned
  | oops
deriving DecidableEq, Repr

/-- `loaded` is before the exit function is called, `exited` is where
`kthread_stop` waits. -/
inductive ExitPc where
  | loaded
  | myKthread
  | kthreadStop
  | exited
  | ret
  | returned
deriving DecidableEq, Repr

/-- `myKthread` is both the global and the thread it points to. -/
structure State where
  printed : List Nat
  jiffies : Nat
  myKthread : Option (Thread Func)
  initPc : InitPc
  exitPc : ExitPc
deriving DecidableEq, Repr

/-- Before the module is loaded. -/
def booted (jiffies : Nat) : State :=
  ⟨[], jiffies, none, .kthreadCreate, .loaded⟩

/-- `created` says if `kthread_create` succeeds. -/
inductive Move where
  | init (created : Bool)
  | exit
  | thread
  | tick
deriving DecidableEq, Repr

/-- `simple_kthread_init` -/
def simpleKthreadInit (s : State) (created : Bool) : Option State :=
  match s.initPc with
  | .kthreadCreate =>
      some { s with
        myKthread := if created then some .kthreadCreate else none
        initPc := .wakeUpProcess }
  | .wakeUpProcess =>
      match s.myKthread with
      | none => some { s with initPc := .oops }
      | some t =>
          some { s with myKthread := some t.wakeUpProcess, initPc := .ret }
  | .ret => some { s with initPc := .returned }
  | .returned => none
  | .oops => none

/-- `simple_kthread_exit` -/
def simpleKthreadExit (s : State) : Option State :=
  match s.exitPc with
  | .loaded =>
      if s.initPc = .returned then some { s with exitPc := .myKthread }
      else none
  | .myKthread =>
      match s.myKthread with
      | none => some { s with exitPc := .ret }
      | some _ => some { s with exitPc := .kthreadStop }
  | .kthreadStop =>
      match s.myKthread with
      | none => none
      | some t =>
          some { s with myKthread := some t.kthreadStop, exitPc := .exited }
  | .exited =>
      match s.myKthread with
      | none => none
      | some t =>
          if t.task = .exited then some { s with exitPc := .ret } else none
  | .ret => some { s with exitPc := .returned }
  | .returned => none

def step (hz : Nat) (s : State) : Move → Option State
  | .init created => simpleKthreadInit s created
  | .exit => simpleKthreadExit s
  | .thread =>
      match s.myKthread with
      | none => none
      | some t =>
          (t.run (simpleKthreadFunc hz) s.printed s.jiffies).map fun r =>
            { s with printed := r.1, myKthread := some r.2 }
  | .tick =>
      some { s with
        jiffies := s.jiffies + 1
        myKthread := s.myKthread.map Thread.tick }

/-! ## What a step can do -/

inductive Step (hz : Nat) (s : State) : Move → State → Prop where
  | create (created : Bool) (hpc : s.initPc = .kthreadCreate) :
      Step hz s (.init created)
        { s with
          myKthread := if created then some .kthreadCreate else none
          initPc := .wakeUpProcess }
  | oops (created : Bool) (hpc : s.initPc = .wakeUpProcess)
      (hnull : s.myKthread = none) :
      Step hz s (.init created) { s with initPc := .oops }
  | wake (created : Bool) (t : Thread Func) (hpc : s.initPc = .wakeUpProcess)
      (ht : s.myKthread = some t) :
      Step hz s (.init created)
        { s with myKthread := some t.wakeUpProcess, initPc := .ret }
  | load (created : Bool) (hpc : s.initPc = .ret) :
      Step hz s (.init created) { s with initPc := .returned }
  | call (hpc : s.exitPc = .loaded) (hinit : s.initPc = .returned) :
      Step hz s .exit { s with exitPc := .myKthread }
  | null (hpc : s.exitPc = .myKthread) (hnull : s.myKthread = none) :
      Step hz s .exit { s with exitPc := .ret }
  | test (t : Thread Func) (hpc : s.exitPc = .myKthread)
      (ht : s.myKthread = some t) :
      Step hz s .exit { s with exitPc := .kthreadStop }
  | stop (t : Thread Func) (hpc : s.exitPc = .kthreadStop)
      (ht : s.myKthread = some t) :
      Step hz s .exit
        { s with myKthread := some t.kthreadStop, exitPc := .exited }
  | wait (t : Thread Func) (hpc : s.exitPc = .exited)
      (ht : s.myKthread = some t) (htask : t.task = .exited) :
      Step hz s .exit { s with exitPc := .ret }
  | leave (hpc : s.exitPc = .ret) :
      Step hz s .exit { s with exitPc := .returned }
  | thread (t t' : Thread Func) (printed : List Nat)
      (ht : s.myKthread = some t)
      (hruns : t.Runs (simpleKthreadFunc hz) s.printed s.jiffies printed t') :
      Step hz s .thread { s with printed := printed, myKthread := some t' }
  | tick :
      Step hz s .tick
        { s with
          jiffies := s.jiffies + 1
          myKthread := s.myKthread.map Thread.tick }

theorem step_step {hz : Nat} {s u : State} {mv : Move}
    (h : step hz s mv = some u) : Step hz s mv u := by
  cases mv with
  | init created =>
      simp only [step, simpleKthreadInit] at h
      split at h
      case h_1 hpc =>
        cases h
        exact .create created hpc
      case h_2 hpc =>
        split at h
        case h_1 hnull =>
          cases h
          exact .oops created hpc hnull
        case h_2 t ht =>
          cases h
          exact .wake created t hpc ht
      case h_3 hpc =>
        cases h
        exact .load created hpc
      case h_4 => cases h
      case h_5 => cases h
  | exit =>
      simp only [step, simpleKthreadExit] at h
      split at h
      case h_1 hpc =>
        split at h
        case isTrue hinit =>
          cases h
          exact .call hpc hinit
        case isFalse => cases h
      case h_2 hpc =>
        split at h
        case h_1 hnull =>
          cases h
          exact .null hpc hnull
        case h_2 t ht =>
          cases h
          exact .test t hpc ht
      case h_3 hpc =>
        split at h
        case h_1 => cases h
        case h_2 t ht =>
          cases h
          exact .stop t hpc ht
      case h_4 hpc =>
        split at h
        case h_1 => cases h
        case h_2 t ht =>
          split at h
          case isTrue htask =>
            cases h
            exact .wait t hpc ht htask
          case isFalse => cases h
      case h_5 hpc =>
        cases h
        exact .leave hpc
      case h_6 => cases h
  | thread =>
      simp only [step] at h
      split at h
      case h_1 => cases h
      case h_2 t ht =>
        obtain ⟨⟨printed, t'⟩, hrun, rfl⟩ := Option.map_eq_some_iff.mp h
        exact .thread t t' printed ht (Thread.run_runs hrun)
  | tick =>
      cases h
      exact .tick

/-! ## The exit function and its thread -/

/-- `kthread_stop` has set the flag. -/
def ExitPc.stopped : ExitPc → Bool
  | .exited => true
  | .ret => true
  | .returned => true
  | _ => false

/-- `kthread_stop` has returned. -/
def ExitPc.joined : ExitPc → Bool
  | .ret => true
  | .returned => true
  | _ => false

structure Inv (s : State) : Prop where
  first : s.initPc = .kthreadCreate → s.myKthread = none
  loaded : s.initPc ≠ .returned → s.exitPc = .loaded
  woken : s.initPc = .ret ∨ s.initPc = .returned →
    ∃ t, s.myKthread = some t ∧ t.task ≠ .created
  stopped : ∀ t, s.myKthread = some t → t.shouldStop = s.exitPc.stopped
  joined : s.exitPc.joined = true →
    ∀ t, s.myKthread = some t → t.task = .exited

theorem booted_inv (jiffies : Nat) : Inv (booted jiffies) :=
  { first := fun _ => rfl
    loaded := fun _ => rfl
    woken := fun h => by rcases h with h | h <;> cases h
    stopped := fun _ h => by cases h
    joined := fun h => by cases h }

/-- Once the exit function has been called, the module has its thread. -/
theorem Inv.thread {s : State} (h : Inv s) (hpc : s.exitPc ≠ .loaded) :
    s.initPc = .returned ∧ ∃ t, s.myKthread = some t ∧ t.task ≠ .created := by
  have hinit : s.initPc = .returned :=
    Classical.byContradiction fun hne => hpc (h.loaded hne)
  exact ⟨hinit, h.woken (Or.inr hinit)⟩

theorem wakeUpProcess_ne_created (t : Thread Func) :
    t.wakeUpProcess.task ≠ .created := by
  unfold Thread.wakeUpProcess
  split
  case h_1 => exact fun h => by cases h
  case h_2 hne => exact hne

theorem ne_created_of_begun {t : Thread Func} (h : t.begun = true) :
    t.task ≠ .created := by
  intro hc
  simp [Thread.begun, hc] at h

theorem tick_task_eq (t : Thread Func) :
    (t.tick.task = .created ↔ t.task = .created) ∧
      (t.tick.task = .exited ↔ t.task = .exited) := by
  unfold Thread.tick
  split
  case h_1 left p htask =>
    rw [htask]
    simp
  case h_2 => exact ⟨Iff.rfl, Iff.rfl⟩

theorem Inv.step {hz : Nat} {s u : State} {mv : Move} (h : Inv s)
    (hst : step hz s mv = some u) : Inv u := by
  cases step_step hst with
  | create created hpc =>
      have hexit := h.loaded (by rw [hpc]; exact fun h => by cases h)
      refine ⟨fun h => (by cases h), fun _ => hexit, ?_, ?_, ?_⟩
      · intro hor
        rcases hor with hret | hret <;> cases hret
      · intro t ht
        rw [hexit]
        cases created with
        | true => cases ht; rfl
        | false => cases ht
      · intro hj
        rw [hexit] at hj
        cases hj
  | oops created hpc hnull =>
      have hexit := h.loaded (by rw [hpc]; exact fun h => by cases h)
      refine ⟨fun _ => hnull, fun _ => hexit, ?_, h.stopped, h.joined⟩
      intro hor
      rcases hor with hret | hret <;> cases hret
  | wake created t hpc ht =>
      have hexit := h.loaded (by rw [hpc]; exact fun h => by cases h)
      refine ⟨fun h => (by cases h), fun _ => hexit, ?_, ?_, ?_⟩
      · exact fun _ => ⟨_, rfl, wakeUpProcess_ne_created t⟩
      · intro t' ht'
        cases ht'
        rw [Thread.wakeUpProcess_shouldStop]
        exact h.stopped t ht
      · intro hj
        rw [hexit] at hj
        cases hj
  | load created hpc =>
      refine ⟨fun h => (by cases h), ?_, ?_, h.stopped, h.joined⟩
      · exact fun hne => absurd rfl hne
      · exact fun _ => h.woken (Or.inl hpc)
  | call hpc hinit =>
      refine ⟨h.first, fun hne => absurd hinit hne, h.woken, ?_, ?_⟩
      · intro t ht
        rw [h.stopped t ht, hpc]
        rfl
      · exact fun hj => by cases hj
  | null hpc hnull =>
      obtain ⟨-, t, ht, -⟩ := h.thread (by rw [hpc]; exact fun h => by cases h)
      rw [hnull] at ht
      cases ht
  | test t hpc ht =>
      obtain ⟨hinit, -⟩ := h.thread (by rw [hpc]; exact fun h => by cases h)
      refine ⟨h.first, fun hne => absurd hinit hne, h.woken, ?_, ?_⟩
      · intro t' ht'
        rw [h.stopped t' ht', hpc]
        rfl
      · exact fun hj => by cases hj
  | stop t hpc ht =>
      obtain ⟨hinit, -⟩ := h.thread (by rw [hpc]; exact fun h => by cases h)
      refine ⟨?_, fun hne => absurd hinit hne, ?_, ?_, ?_⟩
      · intro hfirst
        rw [hinit] at hfirst
        cases hfirst
      · exact fun _ => ⟨_, rfl, wakeUpProcess_ne_created t⟩
      · intro t' ht'
        cases ht'
        rfl
      · exact fun hj => by cases hj
  | wait t hpc ht htask =>
      obtain ⟨hinit, -⟩ := h.thread (by rw [hpc]; exact fun h => by cases h)
      refine ⟨h.first, fun hne => absurd hinit hne, h.woken, ?_, ?_⟩
      · intro t' ht'
        rw [h.stopped t' ht', hpc]
        rfl
      · intro _ t' ht'
        rw [show s.myKthread = some t from ht, Option.some.injEq] at ht'
        rw [← ht']
        exact htask
  | leave hpc =>
      obtain ⟨hinit, -⟩ := h.thread (by rw [hpc]; exact fun h => by cases h)
      refine ⟨h.first, fun hne => absurd hinit hne, h.woken, ?_, ?_⟩
      · intro t' ht'
        rw [h.stopped t' ht', hpc]
        rfl
      · exact fun _ => h.joined (by rw [hpc]; rfl)
  | thread t t' printed ht hruns =>
      refine ⟨?_, h.loaded, ?_, ?_, ?_⟩
      · intro hfirst
        rw [h.first hfirst] at ht
        cases ht
      · exact fun _ => ⟨t', rfl, ne_created_of_begun hruns.begun⟩
      · intro t'' ht''
        cases ht''
        rw [hruns.shouldStop]
        exact h.stopped t ht
      · intro hj
        exact absurd (h.joined hj t ht) hruns.not_exited
  | tick =>
      refine ⟨?_, h.loaded, ?_, ?_, ?_⟩
      · intro hfirst
        show s.myKthread.map Thread.tick = none
        rw [h.first hfirst]
        rfl
      · intro hor
        obtain ⟨t, ht, hne⟩ := h.woken hor
        refine ⟨t.tick, ?_, fun hc => hne ((tick_task_eq t).1.mp hc)⟩
        show s.myKthread.map Thread.tick = _
        rw [ht]
        rfl
      · intro t' ht'
        obtain ⟨t, ht, rfl⟩ := Option.map_eq_some_iff.mp ht'
        rw [Thread.tick_shouldStop]
        exact h.stopped t ht
      · intro hj t' ht'
        obtain ⟨t, ht, rfl⟩ := Option.map_eq_some_iff.mp ht'
        exact (tick_task_eq t).2.mpr (h.joined hj t ht)

/-! ## The printed lines -/

/-- The thread prints at most once in a `pause`. -/
structure Paced (hz : Nat) (s : State) : Prop where
  spaced : s.printed.Pairwise fun i j => i + pause hz ≤ j
  past : ∀ j ∈ s.printed, j ≤ s.jiffies
  rested : ∀ t left p, s.myKthread = some t → t.task = .live left p →
    p ≠ .msleep → ∀ j ∈ s.printed, j + pause hz ≤ s.jiffies + left
  begun : s.printed ≠ [] → ∃ t, s.myKthread = some t ∧ t.begun = true

theorem booted_paced (hz jiffies : Nat) : Paced hz (booted jiffies) :=
  { spaced := List.Pairwise.nil
    past := fun _ h => by cases h
    rested := fun _ _ _ h => by cases h
    begun := fun h => absurd rfl h }

/-- Nothing is printed before the thread has begun. -/
theorem Paced.nil {hz : Nat} {s : State} (h : Paced hz s)
    (hnot : ∀ t, s.myKthread = some t → t.begun = false) :
    s.printed = [] := by
  apply Classical.byContradiction
  intro hne
  obtain ⟨t, ht, hb⟩ := h.begun hne
  rw [hnot t ht] at hb
  cases hb

/-- A step that leaves the thread where it is. -/
theorem Paced.congr {hz : Nat} {s u : State} (h : Paced hz s)
    (hprinted : u.printed = s.printed) (hjiffies : u.jiffies = s.jiffies)
    (hthread : u.myKthread = s.myKthread) : Paced hz u := by
  refine ⟨?_, ?_, ?_, ?_⟩
  · rw [hprinted]
    exact h.spaced
  · rw [hprinted, hjiffies]
    exact h.past
  · rw [hprinted, hjiffies, hthread]
    exact h.rested
  · rw [hprinted, hthread]
    exact h.begun

/-- `kthread_create` and `wake_up_process` come before the first line. -/
theorem Paced.of_nil {hz : Nat} {s : State} (h : s.printed = []) :
    Paced hz s := by
  refine ⟨?_, ?_, ?_, fun hne => absurd h hne⟩
  · rw [h]
    exact List.Pairwise.nil
  · rw [h]
    exact fun _ hj => by cases hj
  · rw [h]
    exact fun _ _ _ _ _ _ _ hj => by cases hj

theorem wakeUpProcess_live {t : Thread Func} {left : Nat} {p : Func}
    (h : t.wakeUpProcess.task = .live left p) : t.task = .live left p := by
  unfold Thread.wakeUpProcess at h
  split at h
  case h_1 => cases h
  case h_2 => exact h

/-- Asleep or not, the time that is left goes down with the clock. -/
theorem tick_live {t : Thread Func} {left : Nat} {p : Func}
    (h : t.tick.task = .live left p) :
    ∃ left', t.task = .live left' p ∧ left' ≤ left + 1 := by
  unfold Thread.tick at h
  split at h
  case h_1 htask =>
    cases h
    exact ⟨left + 1, htask, Nat.le_refl _⟩
  case h_2 => exact ⟨left, h, Nat.le_succ left⟩

theorem Paced.exec {hz : Nat} {s : State} {t : Thread Func} {p : Func}
    (h : Paced hz s) (ht : s.myKthread = some t) (htask : t.task = .live 0 p) :
    Paced hz
      { s with
        printed := ((simpleKthreadFunc hz).exec s.printed t.shouldStop
          s.jiffies p).1
        myKthread := some (t.goTo ((simpleKthreadFunc hz).exec s.printed
          t.shouldStop s.jiffies p).2) } := by
  have hrested := h.rested t 0 p ht htask
  cases p with
  | kthreadShouldStop =>
      refine ⟨h.spaced, h.past, ?_, ?_⟩
      · intro t' left q ht' hlive hq
        cases ht'
        cases hstop : t.shouldStop with
        | false =>
            rw [hstop] at hlive
            cases hlive
            exact hrested (fun h => by cases h)
        | true =>
            rw [hstop] at hlive
            cases hlive
      · intro _
        refine ⟨_, rfl, ?_⟩
        cases t.shouldStop <;> rfl
  | printk =>
      have hlast : ∀ j ∈ s.printed, j + pause hz ≤ s.jiffies :=
        hrested (fun h => by cases h)
      refine ⟨?_, ?_, ?_, fun _ => ⟨_, rfl, rfl⟩⟩
      · refine List.pairwise_append.mpr ⟨h.spaced, List.pairwise_singleton _ _,
          ?_⟩
        intro i hi j hj
        rw [List.mem_singleton] at hj
        rw [hj]
        exact hlast i hi
      · intro j hj
        rcases List.mem_append.mp hj with hold | hnew
        · exact h.past j hold
        · rw [List.mem_singleton] at hnew
          exact Nat.le_of_eq hnew
      · intro t' left q ht' hlive hq
        cases ht'
        cases hlive
        exact absurd rfl hq
  | msleep =>
      refine ⟨h.spaced, h.past, ?_, fun _ => ⟨_, rfl, rfl⟩⟩
      intro t' left q ht' hlive hq j hj
      cases ht'
      cases hlive
      exact Nat.add_le_add_right (h.past j hj) _

theorem Paced.step {hz : Nat} {s u : State} {mv : Move} (hinv : Inv s)
    (h : Paced hz s) (hst : step hz s mv = some u) : Paced hz u := by
  cases step_step hst with
  | create created hpc =>
      refine Paced.of_nil (h.nil fun t ht => ?_)
      rw [hinv.first hpc] at ht
      cases ht
  | wake created t hpc ht =>
      refine ⟨h.spaced, h.past, ?_, ?_⟩
      · intro t' left p ht' hlive
        cases ht'
        exact h.rested t left p ht (wakeUpProcess_live hlive)
      · intro hne
        obtain ⟨t', ht', hb⟩ := h.begun hne
        rw [ht, Option.some.injEq] at ht'
        refine ⟨_, rfl, ?_⟩
        rw [Thread.wakeUpProcess_begun, ht']
        exact hb
  | stop t hpc ht =>
      refine ⟨h.spaced, h.past, ?_, ?_⟩
      · intro t' left p ht' hlive
        cases ht'
        exact h.rested t left p ht (wakeUpProcess_live hlive)
      · intro hne
        obtain ⟨t', ht', hb⟩ := h.begun hne
        rw [ht, Option.some.injEq] at ht'
        refine ⟨_, rfl, ?_⟩
        show t.wakeUpProcess.begun = true
        rw [Thread.wakeUpProcess_begun, ht']
        exact hb
  | thread t t' printed ht hruns =>
      cases hruns with
      | skip htask hstop =>
          refine Paced.of_nil (h.nil fun t' ht' => ?_)
          rw [ht, Option.some.injEq] at ht'
          simp [← ht', Thread.begun, htask]
      | start htask hstop =>
          refine Paced.of_nil (h.nil fun t' ht' => ?_)
          rw [ht, Option.some.injEq] at ht'
          simp [← ht', Thread.begun, htask]
      | exec p htask => exact h.exec ht htask
  | tick =>
      refine ⟨h.spaced, fun j hj => Nat.le_succ_of_le (h.past j hj), ?_, ?_⟩
      · intro t' left p ht' hlive hp j hj
        obtain ⟨t, ht, rfl⟩ := Option.map_eq_some_iff.mp ht'
        obtain ⟨left', hleft, hle⟩ := tick_live hlive
        have := h.rested t left' p ht hleft hp j hj
        show j + pause hz ≤ s.jiffies + 1 + left
        omega
      · intro hne
        obtain ⟨t, ht, hb⟩ := h.begun hne
        refine ⟨t.tick, Option.map_eq_some_iff.mpr ⟨t, ht, rfl⟩, ?_⟩
        rw [Thread.tick_begun]
        exact hb
  | _ => exact h.congr rfl rfl rfl

/-! ## Winding down -/

/-- What the thread still has to do when it has been asked to stop. -/
def rank (hz : Nat) : Func → Nat
  | .kthreadShouldStop => 1
  | .msleep => pause hz + 2
  | .printk => pause hz + 3

theorem winding (hz : Nat) :
    Thread.Winding (simpleKthreadFunc hz) (rank hz) := by
  refine ⟨?_, ?_, ?_⟩
  · intro g j p g' q h
    cases p <;> cases h
    rfl
  · intro g j p g' n q h
    cases p <;> cases h
    rfl
  · intro g j p g' h
    cases p <;> cases h
    rfl

/-- The module's thread has been asked to stop. -/
def State.stopping (s : State) : Bool := s.myKthread.any (·.shouldStop)

/-- The module's thread has exited. -/
def State.gone (s : State) : Bool :=
  s.myKthread.any fun t => decide (t.task = .exited)

/-- The steps and ticks before the thread exits. -/
def State.remaining (hz : Nat) (s : State) : Nat :=
  s.myKthread.elim 0 (·.remaining (rank hz))

/-- The thread executes a statement, or a tick passes while it sleeps. -/
def useful (s : State) : Move → Bool
  | .thread => true
  | .tick => s.myKthread.any (·.asleep)
  | _ => false

/-- The lines that are printed, and the one that the thread is about to
print. -/
def State.lines (s : State) : Nat :=
  s.printed.length + s.myKthread.elim 0 fun t =>
    match t.task with
    | .live _ .printk => 1
    | _ => 0

/-- An asked thread stays asked, and its module loaded. -/
structure Asked (s : State) : Prop where
  inv : Inv s
  stopping : s.stopping = true

theorem stopping_iff {s : State} :
    s.stopping = true ↔ ∃ t, s.myKthread = some t ∧ t.shouldStop = true := by
  unfold State.stopping
  cases s.myKthread <;> simp

/-- The exit function is behind its `kthread_stop`. -/
theorem Asked.pc {s : State} (h : Asked s) :
    s.exitPc.stopped = true ∧ s.initPc = .returned := by
  obtain ⟨t, ht, hstop⟩ := stopping_iff.mp h.stopping
  have hpc := h.inv.stopped t ht
  rw [hstop] at hpc
  refine ⟨hpc.symm, (h.inv.thread ?_).1⟩
  intro hloaded
  rw [hloaded] at hpc
  cases hpc

/-- What can happen between `kthread_stop` and the end of the exit
function. -/
theorem Asked.cases {hz : Nat} {s u : State} {mv : Move} (h : Asked s)
    (hst : step hz s mv = some u) :
    (mv = .exit ∧ u.myKthread = s.myKthread ∧ u.printed = s.printed) ∨
    (mv = .thread ∧ ∃ t t' printed, s.myKthread = some t ∧
      t.shouldStop = true ∧
      t.Runs (simpleKthreadFunc hz) s.printed s.jiffies printed t' ∧
      u = { s with printed := printed, myKthread := some t' }) ∨
    (mv = .tick ∧ ∃ t, s.myKthread = some t ∧ t.shouldStop = true ∧
      u = { s with jiffies := s.jiffies + 1, myKthread := some t.tick }) := by
  obtain ⟨t, ht, hstop⟩ := stopping_iff.mp h.stopping
  obtain ⟨hpc, hinit⟩ := h.pc
  cases step_step hst with
  | create created hp => rw [hinit] at hp; cases hp
  | oops created hp hnull => rw [hinit] at hp; cases hp
  | wake created t' hp ht' => rw [hinit] at hp; cases hp
  | load created hp => rw [hinit] at hp; cases hp
  | stop t' hp ht' => rw [hp] at hpc; cases hpc
  | thread t' t'' printed ht' hruns =>
      rw [ht, Option.some.injEq] at ht'
      subst ht'
      exact Or.inr (Or.inl ⟨rfl, t, t'', printed, ht, hstop, hruns, rfl⟩)
  | tick =>
      refine Or.inr (Or.inr ⟨rfl, t, ht, hstop, ?_⟩)
      rw [ht]
      rfl
  | _ => exact Or.inl ⟨rfl, rfl, rfl⟩

theorem Asked.step {hz : Nat} {s u : State} {mv : Move} (h : Asked s)
    (hst : step hz s mv = some u) : Asked u := by
  refine ⟨h.inv.step hst, ?_⟩
  rcases h.cases hst with ⟨-, hthread, -⟩ | ⟨-, t, t', printed, -, hstop, hruns,
    rfl⟩ | ⟨-, t, -, hstop, rfl⟩
  · have hs := h.stopping
    unfold State.stopping at hs ⊢
    rw [hthread]
    exact hs
  · show t'.shouldStop = true
    rw [hruns.shouldStop]
    exact hstop
  · show t.tick.shouldStop = true
    rw [Thread.tick_shouldStop]
    exact hstop

theorem remaining_step {hz : Nat} {s u : State} {mv : Move} (h : Asked s)
    (hst : step hz s mv = some u) :
    s.remaining hz = u.remaining hz + if useful s mv then 1 else 0 := by
  rcases h.cases hst with ⟨rfl, hthread, -⟩ | ⟨rfl, t, t', printed, ht, hstop,
    hruns, rfl⟩ | ⟨rfl, t, ht, hstop, rfl⟩
  · unfold State.remaining
    rw [hthread]
    rfl
  · unfold State.remaining
    rw [ht]
    exact Thread.remaining_run (winding hz) hstop hruns
  · unfold State.remaining useful
    rw [ht]
    exact Thread.remaining_tick (rank hz) t

/-- An asked thread ends its round and begins no other. -/
theorem lines_step {hz : Nat} {s u : State} {mv : Move} (h : Asked s)
    (hst : step hz s mv = some u) : u.lines ≤ s.lines := by
  rcases h.cases hst with ⟨-, hthread, hprinted⟩ | ⟨-, t, t', printed, ht,
    hstop, hruns, rfl⟩ | ⟨-, t, ht, hstop, rfl⟩
  · apply Nat.le_of_eq
    unfold State.lines
    rw [hthread, hprinted]
  · unfold State.lines
    rw [ht]
    cases hruns with
    | skip htask hs => exact Nat.add_le_add_left (Nat.zero_le _) _
    | start htask hs =>
        rw [hstop] at hs
        cases hs
    | exec p htask =>
        rw [hstop]
        cases p with
        | kthreadShouldStop => exact Nat.add_le_add_left (Nat.zero_le _) _
        | printk =>
            simp [simpleKthreadFunc, Thread.goTo, htask]
        | msleep => exact Nat.add_le_add_left (Nat.zero_le _) _
  · unfold State.lines
    rw [ht]
    cases htask : t.task with
    | live left p =>
        cases left with
        | zero => simp [Thread.tick, htask]
        | succ left => cases p <;> simp [Thread.tick, htask]
    | _ => simp [Thread.tick, htask]

theorem lines_run {hz : Nat} {s u : State} {mvs : List Move} (h : Asked s)
    (hrun : run (step hz) s mvs = some u) : u.lines ≤ s.lines := by
  refine (run_induct (P := fun u => Asked u ∧ u.lines ≤ s.lines) ?_
    ⟨h, Nat.le_refl _⟩ hrun).2
  rintro m mv n ⟨hm, hle⟩ hst
  exact ⟨hm.step hst, Nat.le_trans (lines_step hm hst) hle⟩

theorem printed_le_lines (s : State) : s.printed.length ≤ s.lines :=
  Nat.le_add_right _ _

theorem lines_le (s : State) : s.lines ≤ s.printed.length + 1 := by
  unfold State.lines
  refine Nat.add_le_add_left ?_ _
  cases s.myKthread with
  | none => exact Nat.zero_le 1
  | some t =>
      show (match t.task with | .live _ .printk => 1 | _ => 0) ≤ 1
      split
      · exact Nat.le_refl 1
      · exact Nat.zero_le 1

/-- The thread sleeps only before a test of the flag, and not longer than a
`pause`. -/
def Short (hz : Nat) (s : State) : Prop :=
  ∀ t left p, s.myKthread = some t → t.task = .live left p →
    left = 0 ∨ p = .kthreadShouldStop ∧ left ≤ pause hz

theorem Short.step {hz : Nat} {s u : State} {mv : Move} (h : Short hz s)
    (hst : step hz s mv = some u) : Short hz u := by
  cases step_step hst with
  | create created hpc =>
      intro t left p ht htask
      cases created with
      | true => cases ht; cases htask
      | false => cases ht
  | wake created t hpc ht =>
      intro t' left p ht' htask
      cases ht'
      exact h t left p ht (wakeUpProcess_live htask)
  | stop t hpc ht =>
      intro t' left p ht' htask
      cases ht'
      exact h t left p ht (wakeUpProcess_live htask)
  | thread t t' printed ht hruns =>
      intro t'' left p ht'' htask
      cases ht''
      cases hruns with
      | skip _ _ => cases htask
      | start _ _ => cases htask; exact Or.inl rfl
      | exec q _ =>
          cases q with
          | kthreadShouldStop =>
              cases hstop : t.shouldStop with
              | true => rw [hstop] at htask; cases htask
              | false => rw [hstop] at htask; cases htask; exact Or.inl rfl
          | printk => cases htask; exact Or.inl rfl
          | msleep => cases htask; exact Or.inr ⟨rfl, Nat.le_refl _⟩
  | tick =>
      intro t' left p ht' htask
      obtain ⟨t, ht, rfl⟩ := Option.map_eq_some_iff.mp ht'
      unfold Thread.tick at htask
      split at htask
      case h_1 left' q hlive =>
        cases htask
        rcases h t _ _ ht hlive with hzero | ⟨hp, hle⟩
        · cases hzero
        · exact Or.inr ⟨hp, Nat.le_of_succ_le hle⟩
      case h_2 => exact h t left p ht htask
  | _ => exact h

theorem remaining_le {hz : Nat} {s : State} (h : Short hz s) :
    s.remaining hz ≤ pause hz + 3 := by
  unfold State.remaining
  cases ht : s.myKthread with
  | none => exact Nat.zero_le _
  | some t =>
      show t.remaining (rank hz) ≤ pause hz + 3
      unfold Thread.remaining
      cases htask : t.task with
      | live left p =>
          show left + rank hz p ≤ pause hz + 3
          rcases h t left p ht htask with rfl | ⟨rfl, hle⟩
          · cases p <;> simp only [rank] <;> omega
          · simp only [rank]
            omega
      | _ => simp

/-- An asked thread that has not exited can run, or is asleep. -/
theorem Asked.moves {hz : Nat} {s : State} (h : Asked s)
    (hlive : s.gone = false) :
    ∃ mv u, useful s mv = true ∧ SimpleKthread.step hz s mv = some u := by
  obtain ⟨t, ht, -⟩ := stopping_iff.mp h.stopping
  have hcreated : t.task ≠ .created := by
    obtain ⟨t', ht', hne⟩ := h.inv.woken (Or.inr h.pc.2)
    rw [ht, Option.some.injEq] at ht'
    rw [ht']
    exact hne
  have hexited : t.task ≠ .exited := by
    simpa [State.gone, ht] using hlive
  rcases Thread.moves_of_remaining (f := simpleKthreadFunc hz) s.printed
    s.jiffies hcreated hexited with hasleep | hruns
  · refine ⟨.tick, _, ?_, rfl⟩
    unfold useful
    rw [ht]
    exact hasleep
  · obtain ⟨r, hr⟩ := Option.isSome_iff_exists.mp hruns
    refine ⟨.thread, { s with printed := r.1, myKthread := some r.2 }, rfl, ?_⟩
    unfold SimpleKthread.step
    rw [ht]
    show (t.run _ _ _).map _ = _
    rw [hr]
    rfl

/-- Nothing keeps the exit function from returning once the thread has
exited. -/
theorem Asked.returns {hz : Nat} {s : State} (h : Asked s)
    (hgone : s.gone = true) (hpc : s.exitPc ≠ .returned) :
    ∃ u, SimpleKthread.step hz s .exit = some u := by
  obtain ⟨t, ht, -⟩ := stopping_iff.mp h.stopping
  have htask : t.task = .exited := by
    simpa [State.gone, ht] using hgone
  have hstopped := h.pc.1
  cases hexit : s.exitPc with
  | exited => simp [SimpleKthread.step, simpleKthreadExit, hexit, ht, htask]
  | ret => simp [SimpleKthread.step, simpleKthreadExit, hexit]
  | returned => exact absurd hexit hpc
  | _ =>
      rw [hexit] at hstopped
      cases hstopped

/-! ## The result -/

/-- From `s` on the thread comes to its end. -/
structure WindsDown (hz : Nat) (s : State) : Prop where
  bound : s.remaining hz ≤ pause hz + 3
  spent : ∀ mvs u, run (step hz) s mvs = some u →
    u.remaining hz + counted (step hz) useful s mvs = s.remaining hz
  lines : ∀ mvs u, run (step hz) s mvs = some u →
    u.printed.length ≤ s.printed.length + 1
  moves : s.gone = false →
    ∃ mv u, useful s mv = true ∧ step hz s mv = some u
  returns : s.gone = true → s.exitPc ≠ .returned →
    ∃ u, step hz s .exit = some u

theorem reachable {hz jiffies : Nat} {s : State} {mvs : List Move}
    (hrun : run (step hz) (booted jiffies) mvs = some s) :
    Inv s ∧ Paced hz s ∧ Short hz s := by
  refine run_induct (P := fun s => Inv s ∧ Paced hz s ∧ Short hz s) ?_
    ⟨booted_inv jiffies, booted_paced hz jiffies, fun _ _ _ h => ?_⟩ hrun
  · rintro s mv u ⟨hinv, hpaced, hshort⟩ hst
    exact ⟨hinv.step hst, hpaced.step hinv hst, hshort.step hst⟩
  · cases h

/-- The lines of the thread are at least a second apart.  A loaded module has
its thread, and that has exited when the exit function returns.  From
`kthread_stop` on the thread prints at most one more line, and exits after at
most `HZ` + 4 of its own steps and ticks it sleeps through, of which one is
possible until then; then the exit function returns. -/
theorem exit_waits_for_thread {hz jiffies : Nat} {s : State}
    {mvs : List Move} (hrun : run (step hz) (booted jiffies) mvs = some s) :
    (s.printed.Pairwise fun i j => i + pause hz ≤ j) ∧
    (s.initPc = .returned → s.myKthread.isSome = true) ∧
    (s.exitPc = .returned → s.gone = true) ∧
    (s.stopping = true → WindsDown hz s) := by
  obtain ⟨hinv, hpaced, hshort⟩ := reachable hrun
  refine ⟨hpaced.spaced, ?_, ?_, ?_⟩
  · intro hinit
    obtain ⟨t, ht, -⟩ := hinv.woken (Or.inr hinit)
    rw [ht]
    rfl
  · intro hpc
    obtain ⟨-, t, ht, -⟩ :=
      hinv.thread (by rw [hpc]; exact fun h => by cases h)
    have htask := hinv.joined (by rw [hpc]; rfl) t ht
    simp [State.gone, ht, htask]
  · intro hstop
    have hasked : Asked s := ⟨hinv, hstop⟩
    exact {
      bound := remaining_le hshort
      spent := fun _ _ hrest =>
        measure_add_counted (fun _ _ _ h hst => Asked.step h hst)
          (fun _ _ _ h hst => remaining_step h hst) hasked hrest
      lines := fun mvs u hrest => Nat.le_trans (printed_le_lines u)
        (Nat.le_trans (lines_run hasked hrest) (lines_le s))
      moves := hasked.moves
      returns := hasked.returns }

/-- The thread has printed one line and sleeps when the module is removed;
`HZ` is 2. -/
def removeRun : List Move :=
  List.flatten
    [ List.replicate 3 (.init true)
    , List.replicate 4 .thread
    , List.replicate 3 .exit
    , List.replicate 3 .tick
    , [.thread, .exit, .exit] ]

theorem exit_waits_for_thread_removeRun :
    ∃ s, run (step 2) (booted 7) removeRun = some s ∧
      s.printed = [7] ∧ s.gone = true := by
  have hend : (run (step 2) (booted 7) removeRun).map
      (fun s => (s.printed, s.exitPc)) = some ([7], .returned) := by
    decide +kernel
  obtain ⟨s, hrun, hs⟩ := Option.map_eq_some_iff.mp hend
  rw [Prod.mk.injEq] at hs
  exact ⟨s, hrun, hs.1, (exit_waits_for_thread hrun).2.2.1 hs.2⟩

end EmbeddedSystem.Labs.SimpleKthread
