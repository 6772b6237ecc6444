/-!
# Kernel threads

A kernel thread is created asleep, starts when it is first woken, and is asked
to stop by a flag that its function polls.  The kernel calls the thread
function only if that flag is still clear when the thread first runs, and
whoever stops a thread waits until it has exited.

The function is a set `P` of statements with globals `G`.  A statement goes on
to another one, sleeps first, or returns.  `rank` counts the thread's steps and
the ticks it sleeps through up to its exit, for a function that winds down once
it has been asked to (`Winding`): each step and each tick slept through takes
one off (`remaining_run`, `remaining_tick`), and until there are none left one
of the two is possible (`moves_of_remaining`).
-/

set_option autoImplicit false

namespace EmbeddedSystem.Verified.Kthread

/-- What follows a statement. -/
inductive After (P : Type) where
  | next (p : P)
  | msleep (jiffies : Nat) (p : P)
  | ret
deriving DecidableEq, Repr

/-- A thread function.  A statement sees the globals, the stop flag and the
clock. -/
structure ThreadFn (G P : Type) where
  first : P
  exec : G → Bool → Nat → P → G × After P

/-- `live left p` sleeps for `left` more ticks and then executes `p`. -/
inductive Task (P : Type) where
  | created
  | woken
  | live (left : Nat) (p : P)
  | exited
deriving DecidableEq, Repr

structure Thread (P : Type) where
  task : Task P
  shouldStop : Bool
deriving DecidableEq, Repr

namespace Thread

variable {G P : Type}

def kthreadCreate : Thread P := ⟨.created, false⟩

/-- `wake_up_process`.  A thread inside `msleep` goes back to sleep for the
rest of its time. -/
def wakeUpProcess (t : Thread P) : Thread P :=
  match t.task with
  | .created => { t with task := .woken }
  | _ => t

/-- `kthread_stop`, up to the point where it waits. -/
def kthreadStop (t : Thread P) : Thread P :=
  { t.wakeUpProcess with shouldStop := true }

/-- The clock advances. -/
def tick (t : Thread P) : Thread P :=
  match t.task with
  | .live (left + 1) p => { t with task := .live left p }
  | _ => t

/-- Where the thread is after a statement. -/
def goTo (t : Thread P) : After P → Thread P
  | .next p => { t with task := .live 0 p }
  | .msleep jiffies p => { t with task := .live jiffies p }
  | .ret => { t with task := .exited }

/-- The thread gets a CPU. -/
def run (f : ThreadFn G P) (g : G) (jiffies : Nat) (t : Thread P) :
    Option (G × Thread P) :=
  match t.task with
  | .woken =>
      if t.shouldStop then some (g, { t with task := .exited })
      else some (g, { t with task := .live 0 f.first })
  | .live 0 p =>
      let r := f.exec g t.shouldStop jiffies p
      some (r.1, t.goTo r.2)
  | _ => none

/-- The thread is inside `msleep`. -/
def asleep (t : Thread P) : Bool :=
  match t.task with
  | .live (_ + 1) _ => true
  | _ => false

/-- The thread has had a CPU. -/
def begun (t : Thread P) : Bool :=
  match t.task with
  | .live _ _ => true
  | .exited => true
  | _ => false

/-! ## The stop flag -/

@[simp] theorem wakeUpProcess_shouldStop (t : Thread P) :
    t.wakeUpProcess.shouldStop = t.shouldStop := by
  unfold wakeUpProcess
  split <;> rfl

@[simp] theorem tick_shouldStop (t : Thread P) :
    t.tick.shouldStop = t.shouldStop := by
  unfold tick
  split <;> rfl

@[simp] theorem goTo_shouldStop (t : Thread P) (a : After P) :
    (t.goTo a).shouldStop = t.shouldStop := by
  cases a <;> rfl

/-! ## What a thread can do -/

inductive Runs (f : ThreadFn G P) (g : G) (jiffies : Nat) (t : Thread P) :
    G → Thread P → Prop where
  | skip (htask : t.task = .woken) (hstop : t.shouldStop = true) :
      Runs f g jiffies t g { t with task := .exited }
  | start (htask : t.task = .woken) (hstop : t.shouldStop = false) :
      Runs f g jiffies t g { t with task := .live 0 f.first }
  | exec (p : P) (htask : t.task = .live 0 p) :
      Runs f g jiffies t (f.exec g t.shouldStop jiffies p).1
        (t.goTo (f.exec g t.shouldStop jiffies p).2)

theorem run_runs {f : ThreadFn G P} {g g' : G} {jiffies : Nat}
    {t t' : Thread P} (h : t.run f g jiffies = some (g', t')) :
    Runs f g jiffies t g' t' := by
  unfold run at h
  split at h
  case h_1 htask =>
    split at h
    case isTrue hstop =>
      cases h
      exact .skip htask hstop
    case isFalse hstop =>
      cases h
      exact .start htask (Bool.eq_false_iff.mpr hstop)
  case h_2 p htask =>
    cases h
    exact .exec p htask
  case h_3 => cases h

theorem Runs.shouldStop {f : ThreadFn G P} {g g' : G} {jiffies : Nat}
    {t t' : Thread P} (h : Runs f g jiffies t g' t') :
    t'.shouldStop = t.shouldStop := by
  cases h with
  | exec p htask => exact goTo_shouldStop t _
  | _ => rfl

theorem Runs.begun {f : ThreadFn G P} {g g' : G} {jiffies : Nat}
    {t t' : Thread P} (h : Runs f g jiffies t g' t') : t'.begun = true := by
  cases h with
  | exec p htask => cases (f.exec g t.shouldStop jiffies p).2 <;> rfl
  | _ => rfl

@[simp] theorem wakeUpProcess_begun (t : Thread P) :
    t.wakeUpProcess.begun = t.begun := by
  cases htask : t.task <;> simp [wakeUpProcess, begun, htask]

@[simp] theorem tick_begun (t : Thread P) : t.tick.begun = t.begun := by
  cases htask : t.task with
  | live left p => cases left <;> simp [tick, begun, htask]
  | _ => simp [tick, begun, htask]

/-- A thread that has exited is not run again. -/
theorem Runs.not_exited {f : ThreadFn G P} {g g' : G} {jiffies : Nat}
    {t t' : Thread P} (h : Runs f g jiffies t g' t') : t.task ≠ .exited := by
  intro hexited
  cases h with
  | skip htask hstop => rw [htask] at hexited; cases hexited
  | start htask hstop => rw [htask] at hexited; cases hexited
  | exec p htask => rw [htask] at hexited; cases hexited

/-! ## Winding down -/

/-- Asked to stop, the function takes `rank p` steps and ticks from `p` to its
return. -/
structure Winding (f : ThreadFn G P) (rank : P → Nat) : Prop where
  next : ∀ {g j p g' q}, f.exec g true j p = (g', .next q) →
    rank p = rank q + 1
  msleep : ∀ {g j p g' n q}, f.exec g true j p = (g', .msleep n q) →
    rank p = n + rank q + 1
  ret : ∀ {g j p g'}, f.exec g true j p = (g', .ret) → rank p = 1

/-- The steps and ticks that a thread with a set stop flag still takes. -/
def remaining (rank : P → Nat) (t : Thread P) : Nat :=
  match t.task with
  | .created => 1
  | .woken => 1
  | .live left p => left + rank p
  | .exited => 0

/-- Where there is a step to take, there is a statement. -/
theorem Winding.pos {f : ThreadFn G P} {rank : P → Nat} (h : Winding f rank)
    (g : G) (p : P) : 0 < rank p := by
  cases hexec : f.exec g true 0 p with
  | mk g' a =>
      cases a with
      | next q =>
          have := h.next hexec
          omega
      | msleep n q =>
          have := h.msleep hexec
          omega
      | ret =>
          have := h.ret hexec
          omega

theorem remaining_run {f : ThreadFn G P} {rank : P → Nat}
    (h : Winding f rank) {g g' : G} {jiffies : Nat} {t t' : Thread P}
    (hstop : t.shouldStop = true) (hrun : Runs f g jiffies t g' t') :
    t.remaining rank = t'.remaining rank + 1 := by
  cases hrun with
  | skip htask hs =>
      unfold remaining
      rw [htask]
  | start htask hs =>
      rw [hstop] at hs
      cases hs
  | exec p htask =>
      rw [hstop]
      cases hexec : f.exec g true jiffies p with
      | mk g' a =>
          unfold remaining
          rw [htask]
          cases a with
          | next q =>
              have := h.next hexec
              show 0 + rank p = 0 + rank q + 1
              omega
          | msleep n q =>
              have := h.msleep hexec
              show 0 + rank p = n + rank q + 1
              omega
          | ret =>
              have := h.ret hexec
              show 0 + rank p = 0 + 1
              omega

theorem remaining_tick (rank : P → Nat) (t : Thread P) :
    t.remaining rank =
      t.tick.remaining rank + if t.asleep then 1 else 0 := by
  cases htask : t.task with
  | live left p =>
      cases left with
      | zero => simp [tick, asleep, htask]
      | succ left =>
          simp only [tick, asleep, remaining, htask, if_true]
          omega
  | _ => simp [tick, asleep, htask]

/-- A woken thread that has not exited can run, or is asleep. -/
theorem moves_of_remaining {f : ThreadFn G P} (g : G) (jiffies : Nat)
    {t : Thread P} (hwoken : t.task ≠ .created) (hlive : t.task ≠ .exited) :
    t.asleep = true ∨ (t.run f g jiffies).isSome = true := by
  unfold asleep run
  cases htask : t.task with
  | created => exact absurd htask hwoken
  | exited => exact absurd htask hlive
  | woken =>
      right
      cases t.shouldStop <;> rfl
  | live left p =>
      cases left with
      | zero => exact Or.inr rfl
      | succ left => exact Or.inl rfl

end Thread

end EmbeddedSystem.Verified.Kthread
