import EmbeddedSystem.Team.ServerMain

/-!
# The inside LED shows whether somebody is inside

The server keeps a count, the driver keeps a flag, and the GPIO has a level.
For every run of `main` next to the driver, from the opening of the device to
the shutdown, the flag and the level agree, and between two messages they are
on exactly when the count is not zero (`led_truthful`).

What relates the two programs is `ledAfter`, the state of the LED once the
calls under way have been made.  It follows the count at every step, although
the LED itself lags behind while `on_message` runs.
-/

set_option autoImplicit false

namespace EmbeddedSystem.Team.ServerMain

open EmbeddedSystem.Verified
open EmbeddedSystem.Verified.CString
open EmbeddedSystem.Verified.Transition
open EmbeddedSystem.Team.ServerPiApp
open EmbeddedSystem.Team.Pi2LedDriver (Pi2Led pi2LedWrite loadedLed unloaded
  InitRets pi2LedInit eq_loadedLed pi2LedWrite_cases goodRets)

/-! ## What the calls do to the LED -/

/-- The LED after the calls, if it shows `on` before them. -/
def ledAfter (on : Bool) : List Call → Bool
  | [] => on
  | .publish _ :: rest => ledAfter on rest
  | .write _ data :: rest =>
      ledAfter ((Pi2LedDriver.accepted data 0).getD on) rest

theorem ledAfter_append (on : Bool) (xs ys : List Call) :
    ledAfter on (xs ++ ys) = ledAfter (ledAfter on xs) ys := by
  induction xs generalizing on with
  | nil => rfl
  | cons c xs ih =>
      cases c with
      | publish p => exact ih on
      | write fd data => exact ih _

/-- Every write is of one byte, which the driver takes for a value that `P`
allows. -/
def WritesOnly (P : Bool → Prop) (calls : List Call) : Prop :=
  ∀ fd data, .write fd data ∈ calls → data.length = 1 ∧
    ∃ value, Pi2LedDriver.accepted data 0 = some value ∧ P value

theorem WritesOnly.mono {P Q : Bool → Prop} {calls : List Call}
    (h : WritesOnly P calls) (hPQ : ∀ value, P value → Q value) :
    WritesOnly Q calls := by
  intro fd data hmem
  obtain ⟨hlen, value, hacc, hP⟩ := h fd data hmem
  exact ⟨hlen, value, hacc, hPQ value hP⟩

/-- `set_inside_led` with an open device writes one byte, which the driver
accepts. -/
theorem setInsideLed_writes {s : Server} (hfd : 0 ≤ s.ledFd) (on : Bool) :
    WritesOnly (fun value => value = on) (setInsideLed on s) ∧
      ∀ old, ledAfter old (setInsideLed on s) = on := by
  have hopen : ¬ s.ledFd < 0 := by omega
  have hacc : Pi2LedDriver.accepted (if on then ascii "1" else ascii "0") 0 =
      some on := by
    cases on <;> decide
  have hlen : (if on then ascii "1" else ascii "0").length = 1 := by
    cases on <;> decide
  unfold setInsideLed
  dsimp only
  rw [if_neg hopen]
  constructor
  · intro fd data hmem
    rw [List.mem_singleton, Call.write.injEq] at hmem
    rw [hmem.2]
    exact ⟨hlen, on, hacc, rfl⟩
  · intro old
    show (Pi2LedDriver.accepted _ 0).getD old = on
    rw [hacc]
    rfl

/-- After `on_message` the LED is on exactly when somebody is inside. -/
theorem onMessage_led {s : Server} (hfd : 0 ≤ s.ledFd)
    (h : BoundedCounter.InBounds maxCount s.currentCount) (m : Message) :
    WritesOnly (fun _ => True) (onMessage maxCount s m).2 ∧
      ∀ old, ledAfter old (onMessage maxCount s m).2 =
        decide (0 < (onMessage maxCount s m).1.currentCount) := by
  have hmax : maxCount < 0x80000000 := by decide
  rw [onMessage_eq hmax h]
  dsimp only
  have hset := setInsideLed_writes
    (s := { s with currentCount := countAfter maxCount s.currentCount m })
    hfd (decide (0 < countAfter maxCount s.currentCount m))
  have hanswer : ∀ fd data,
      .write fd data ∉ answer maxCount s.currentCount m := by
    intro fd data
    unfold answer
    cases request m with
    | none => simp
    | some r => simp
  constructor
  · intro fd data hmem
    rcases List.mem_append.mp hmem with hmem | hstatus
    · rcases List.mem_append.mp hmem with hans | hled
      · exact absurd hans (hanswer fd data)
      · exact hset.1.mono (fun _ _ => trivial) fd data hled
    · simp at hstatus
  · intro old
    rw [ledAfter_append, ledAfter_append]
    exact hset.2 _

/-! ## The two programs together -/

/-- `main` is between its start-up and the shutdown. -/
def serving : MainPc → Bool
  | .test | .loop | .reconnect | .ledOffAgain => true
  | _ => false

/-- `main` has not got to its loop yet. -/
def starting : MainPc → Bool
  | .openLed | .ledOff | .mosquittoNew | .connect => true
  | _ => false

/-- `led_fd` is the open device. -/
def deviceOpen : MainPc → Bool
  | .openLed | .returned _ => false
  | _ => true

/-- What the LED is going to show: off, except while messages are served and
somebody is inside. -/
def wanted (s : System) : Bool :=
  serving s.pc && decide (0 < s.server.currentCount)

/-- The relation between the server, its calls under way, and the driver. -/
structure Follows (g : Int) (s : System) : Prop extends Counted s where
  ledGpio : s.led.ledGpio = g
  level : GpioCall.level g s.led.gpio = some s.led.ledState
  rets : ∀ ret ∈ s.writeRets, ret = 1
  writes : WritesOnly (fun _ => True) s.todo
  settles : ledAfter s.led.ledState s.todo = wanted s
  fresh : s.handled = 0 → s.server.currentCount = 0 ∧
    s.led.ledState = false ∧ WritesOnly (fun value => value = false) s.todo
  starting : starting s.pc = true → s.handled = 0
  fd : deviceOpen s.pc = true → 0 ≤ s.server.ledFd
  returned : ∀ code, s.pc = .returned code → s.todo = []

theorem start_follows (g : Int) : Follows g (start g) := by
  refine
    { start_counted g with
      ledGpio := rfl
      level := ?_
      rets := fun ret hmem => by cases hmem
      writes := fun fd data hmem => by cases hmem
      settles := rfl
      fresh := fun _ => ⟨rfl, rfl, fun fd data hmem => by cases hmem⟩
      starting := fun _ => rfl
      fd := fun hopen => by cases hopen
      returned := fun code hpc => by cases hpc }
  show GpioCall.level g [.gpioRequest g, .gpioDirectionOutput g false] =
    some false
  simp [GpioCall.level, GpioCall.drives]

/-- `main` goes on without a call under way. -/
theorem Follows.goto {g : Int} {s : System} (h : Follows g s) (pc : MainPc)
    (htodo : s.todo = []) (hcounted : Counted { s with pc := pc })
    (hwanted : wanted { s with pc := pc } = wanted s)
    (hstarting : ServerMain.starting pc = true →
      ServerMain.starting s.pc = true)
    (hopen : deviceOpen pc = true → deviceOpen s.pc = true) :
    Follows g { s with pc := pc } :=
  { hcounted with
    ledGpio := h.ledGpio
    level := h.level
    rets := h.rets
    writes := h.writes
    settles := h.settles.trans hwanted.symm
    fresh := h.fresh
    starting := fun hpc => h.starting (hstarting hpc)
    fd := fun hpc => h.fd (hopen hpc)
    returned := fun _ _ => htodo }

/-- `set_inside_led(0)` in `main`, before its loop and after it. -/
theorem Follows.ledOff {g : Int} {s : System} (h : Follows g s) (pc : MainPc)
    (hfd : deviceOpen s.pc = true)
    (hcounted : Counted
      { s with todo := setInsideLed false s.server, pc := pc })
    (hserving : serving pc = false)
    (hstarting : ServerMain.starting pc = true →
      ServerMain.starting s.pc = true)
    (hreturned : ∀ code, pc ≠ .returned code) :
    Follows g { s with todo := setInsideLed false s.server, pc := pc } := by
  have hset := setInsideLed_writes (h.fd hfd) false
  refine
    { hcounted with
      ledGpio := h.ledGpio
      level := h.level
      rets := h.rets
      writes := hset.1.mono fun _ _ => trivial
      settles := ?_
      fresh := fun hnone => ⟨(h.fresh hnone).1, (h.fresh hnone).2.1, hset.1⟩
      starting := fun hpc => h.starting (hstarting hpc)
      fd := fun _ => h.fd hfd
      returned := fun code hpc => absurd hpc (hreturned code) }
  show ledAfter s.led.ledState (setInsideLed false s.server) = wanted _
  rw [hset.2]
  simp [wanted, hserving]

/-- `main` does not return with a call under way. -/
theorem Follows.not_returned {g : Int} {s : System} (h : Follows g s)
    {c : Call} {rest : List Call} (htodo : s.todo = c :: rest) (code : Int) :
    s.pc ≠ .returned code := by
  intro hpc
  have hnil := h.returned code hpc
  rw [htodo] at hnil
  cases hnil

/-- The calls after the first one under way are under way. -/
theorem mem_todo_of_mem {s : System} {c : Call} {rest : List Call}
    (htodo : s.todo = c :: rest) :
    ∀ fd data, .write fd data ∈ rest → .write fd data ∈ s.todo := by
  intro fd data hmem
  rw [htodo]
  exact List.mem_cons_of_mem c hmem

/-- A publication, accepted or refused. -/
theorem Follows.published {g : Int} {s t : System} (h : Follows g s)
    {p : Publication} {rest : List Call} (htodo : s.todo = .publish p :: rest)
    (ht : t = { s with
      todo := rest, accepted := t.accepted, refused := t.refused })
    (hcounted : Counted t) : Follows g t := by
  have hrest := mem_todo_of_mem htodo
  have hsettles := h.settles
  rw [htodo] at hsettles
  rw [ht] at hcounted ⊢
  refine
    { hcounted with
      ledGpio := h.ledGpio
      level := h.level
      rets := h.rets
      writes := fun fd data hmem => h.writes fd data (hrest fd data hmem)
      settles := hsettles
      fresh := fun hnone => ?_
      starting := h.starting
      fd := h.fd
      returned := fun code hpc => absurd hpc (h.not_returned htodo code) }
  obtain ⟨hcount, hoff, hwrites⟩ := h.fresh hnone
  exact ⟨hcount, hoff, fun fd data hmem =>
    hwrites fd data (hrest fd data hmem)⟩

/-- A write reaches the driver. -/
theorem Follows.written {g : Int} {s : System} (h : Follows g s) {fd : Int}
    {data : Bytes} {rest : List Call}
    (htodo : s.todo = .write fd data :: rest)
    (hcounted : Counted
      { s with
        todo := rest
        led := (pi2LedWrite s.led data 0).1
        writeRets := s.writeRets ++ [(pi2LedWrite s.led data 0).2] }) :
    Follows g
      { s with
        todo := rest
        led := (pi2LedWrite s.led data 0).1
        writeRets := s.writeRets ++ [(pi2LedWrite s.led data 0).2] } := by
  have hfirst : .write fd data ∈ s.todo := by
    rw [htodo]
    exact List.mem_cons_self
  have hrest := mem_todo_of_mem htodo
  obtain ⟨hlen, value, hacc, -⟩ := h.writes fd data hfirst
  have hsettles := h.settles
  rw [htodo] at hsettles
  have hwrite : pi2LedWrite s.led data 0 =
      ({ s.led.call (.gpioSetValue g value) with ledState := value }, 1) := by
    rcases pi2LedWrite_cases s.led data 0 with
      ⟨value', hacc', hw⟩ | ⟨hnone, -⟩
    · rw [hacc, Option.some.injEq] at hacc'
      subst hacc'
      rw [hw, h.ledGpio, hlen]
      rfl
    · rw [hacc] at hnone
      cases hnone
  rw [hwrite] at hcounted ⊢
  refine
    { hcounted with
      ledGpio := h.ledGpio
      level := GpioCall.level_gpioSetValue g _ value
      rets := fun ret hmem => ?_
      writes := fun fd data hmem => h.writes fd data (hrest fd data hmem)
      settles := ?_
      fresh := fun hnone => ?_
      starting := h.starting
      fd := h.fd
      returned := fun code hpc => absurd hpc (h.not_returned htodo code) }
  · rcases List.mem_append.mp hmem with hold | hnew
    · exact h.rets ret hold
    · exact List.mem_singleton.mp hnew
  · show ledAfter value rest = wanted s
    rw [← hsettles]
    show ledAfter value rest =
      ledAfter ((Pi2LedDriver.accepted data 0).getD s.led.ledState) rest
    rw [hacc]
    rfl
  · obtain ⟨hcount, -, hwrites⟩ := h.fresh hnone
    obtain ⟨-, value', hacc', hoff⟩ := hwrites fd data hfirst
    rw [hacc, Option.some.injEq] at hacc'
    exact ⟨hcount, hacc'.trans hoff, fun fd data hmem =>
      hwrites fd data (hrest fd data hmem)⟩

/-- Outside the loop the LED is to be off. -/
theorem wanted_of_not_serving {s : System} (h : serving s.pc = false) :
    wanted s = false := by
  simp [wanted, h]

/-- `main` has opened the device, or failed to. -/
theorem Follows.opened {g : Int} {s : System} (h : Follows g s) {fd : Int}
    (hpc : s.pc = .openLed) (htodo : s.todo = [])
    (hcounted : Counted
      { s with
        server := { s.server with ledFd := fd }
        pc := if fd < 0 then .returned 1 else .ledOff }) :
    Follows g
      { s with
        server := { s.server with ledFd := fd }
        pc := if fd < 0 then .returned 1 else .ledOff } := by
  have hnone : s.handled = 0 := h.starting (by rw [hpc]; rfl)
  have hoff : ledAfter s.led.ledState s.todo = false := by
    rw [h.settles]
    exact wanted_of_not_serving (by rw [hpc]; rfl)
  refine
    { hcounted with
      ledGpio := h.ledGpio
      level := h.level
      rets := h.rets
      writes := h.writes
      settles := hoff.trans ?_
      fresh := h.fresh
      starting := fun _ => hnone
      fd := fun hopen => ?_
      returned := fun _ _ => htodo }
  · by_cases hneg : fd < 0
    · simp [wanted, serving, hneg]
    · simp [wanted, serving, hneg]
  · show 0 ≤ fd
    by_cases hneg : fd < 0
    · simp [deviceOpen, hneg] at hopen
    · omega

/-- `on_message` handles a message. -/
theorem Follows.handled {g : Int} {s : System} (h : Follows g s) (m : Message)
    (hpc : s.pc = .loop)
    (hcounted : Counted
      { s with
        server := (onMessage maxCount s.server m).1
        todo := (onMessage maxCount s.server m).2
        handled := s.handled + 1 }) :
    Follows g
      { s with
        server := (onMessage maxCount s.server m).1
        todo := (onMessage maxCount s.server m).2
        handled := s.handled + 1 } := by
  have hfd : 0 ≤ s.server.ledFd := h.fd (by rw [hpc]; rfl)
  have hled := onMessage_led hfd h.inBounds m
  have hsame : (onMessage maxCount s.server m).1.ledFd = s.server.ledFd := by
    rw [onMessage_eq (by decide) h.inBounds]
  refine
    { hcounted with
      ledGpio := h.ledGpio
      level := h.level
      rets := h.rets
      writes := hled.1
      settles := ?_
      fresh := fun hnone => by cases hnone
      starting := fun hst => ?_
      fd := fun _ => ?_
      returned := fun code hret => ?_ }
  · show ledAfter _ (onMessage maxCount s.server m).2 = wanted _
    rw [hled.2]
    simp [wanted, hpc, serving]
  · rw [show ServerMain.starting s.pc = false by rw [hpc]; rfl] at hst
    cases hst
  · show 0 ≤ (onMessage maxCount s.server m).1.ledFd
    rw [hsame]
    exact hfd
  · have hloop : s.pc = .returned code := hret
    rw [hpc] at hloop
    cases hloop

theorem Follows.step {g : Int} {s t : System} {e : Event} (h : Follows g s)
    (hst : ServerMain.step s e = some t) : Follows g t := by
  have hcounted := h.toCounted.step hst
  cases step_cases hst with
  | signal => exact { h with toCounted := hcounted }
  | openLed fd hpc htodo => exact h.opened hpc htodo hcounted
  | ledOff hpc htodo =>
      exact h.ledOff .mosquittoNew (by rw [hpc]; rfl) hcounted rfl
        (fun _ => by rw [hpc]; rfl) (fun _ hne => by cases hne)
  | ledOffAgain hpc htodo =>
      exact h.ledOff .disconnect (by rw [hpc]; rfl) hcounted rfl
        (fun hst => by cases hst) (fun _ hne => by cases hne)
  | mosquittoNew hpc htodo pc hnext =>
      refine h.goto pc htodo hcounted ?_ (fun _ => by rw [hpc]; rfl)
        (fun _ => by rw [hpc]; rfl)
      rw [wanted_of_not_serving (s := s) (by rw [hpc]; rfl)]
      rcases hnext with hnext | hnext
      · simp [wanted, serving, hnext]
      · simp [wanted, serving, hnext]
  | connect hpc htodo pc hnext =>
      -- before the loop nobody is inside
      have hnone := h.starting (by rw [hpc]; rfl)
      have hzero := (h.fresh hnone).1
      refine h.goto pc htodo hcounted ?_ (fun _ => by rw [hpc]; rfl)
        (fun _ => by rw [hpc]; rfl)
      rw [wanted_of_not_serving (s := s) (by rw [hpc]; rfl)]
      simp [wanted, hzero]
  | loop hpc htodo pc hnext =>
      have hbefore : serving s.pc = true ∧ deviceOpen s.pc = true := by
        rcases hpc with hpc | hpc | hpc <;> rw [hpc] <;> exact ⟨rfl, rfl⟩
      have hafter : serving pc = true ∧ ServerMain.starting pc = false := by
        rcases hnext with hpc | hpc | hpc | hpc <;> rw [hpc] <;>
          exact ⟨rfl, rfl⟩
      refine h.goto pc htodo hcounted ?_ (fun hst => ?_)
        (fun _ => hbefore.2)
      · simp [wanted, hbefore.1, hafter.1]
      · rw [hafter.2] at hst
        cases hst
  | disconnect hpc htodo =>
      refine h.goto _ htodo hcounted ?_ (fun hst => by cases hst)
        (fun hopen => by cases hopen)
      rw [wanted_of_not_serving (s := s) (by rw [hpc]; rfl)]
      rfl
  | message m hpc htodo => exact h.handled m hpc hcounted
  | accept p rest htodo => exact h.published htodo rfl hcounted
  | refuse p rest htodo => exact h.published htodo rfl hcounted
  | write fd data rest htodo => exact h.written htodo hcounted

/-! ## The result -/

/-- What the LED shows in a state: flag and level agree; they are off before
the first message and after `main` has returned; between two messages they
are on exactly when the count is positive; and the driver has accepted every
byte so far. -/
structure Truthful (g : Int) (s : System) : Prop where
  level : GpioCall.level g s.led.gpio = some s.led.ledState
  before : s.handled = 0 → s.led.ledState = false
  shutdown : ∀ code, s.pc = .returned code → s.led.ledState = false
  count : serving s.pc = true → s.todo = [] →
    (s.led.ledState = true ↔ 0 < s.server.currentCount)
  accepted : ∀ ret ∈ s.writeRets, ret = 1

theorem Follows.truthful {g : Int} {s : System} (h : Follows g s) :
    Truthful g s := by
  -- without calls under way the LED shows what it is to show
  have hsettled : s.todo = [] → s.led.ledState = wanted s := by
    intro htodo
    have hall := h.settles
    rw [htodo] at hall
    exact hall
  refine
    { level := h.level
      before := fun hnone => (h.fresh hnone).2.1
      shutdown := fun code hpc => ?_
      count := fun hserving htodo => ?_
      accepted := h.rets }
  · rw [hsettled (h.returned code hpc)]
    simp [wanted, hpc, serving]
  · rw [hsettled htodo]
    simp [wanted, hserving]

/-- In every run of `main` next to a driver that `pi2_led_init` has set up. -/
theorem led_truthful {r : InitRets} {g : Int} {d : Pi2Led}
    (hinit : pi2LedInit r (unloaded g) = (d, 0)) {es : List Event}
    {s : System} (hrun : run step { start g with led := d } es = some s) :
    Truthful g s := by
  obtain rfl := eq_loadedLed hinit
  have h : Follows g s := run_induct (P := Follows g)
    (fun _ _ _ hs hst => hs.step hst) (start_follows g) hrun
  exact h.truthful

/-- One person enters, the connection is lost and taken up again, and `main`
is stopped. -/
def visitRun : List Event :=
  [ .proceed 3, .proceed 0, .perform 0, .proceed 1, .proceed 0, .proceed 0
  , .message enterMessage, .perform 0, .perform 0, .perform 0, .proceed 7
  , .proceed 0, .signal, .proceed 0, .proceed 0, .perform 0, .proceed 0 ]

theorem led_truthful_visitRun :
    ∃ s, run step (start 5) visitRun = some s ∧ s.pc = .returned 0 ∧
      s.writeRets = [1, 1, 1] ∧ Truthful 5 s := by
  have hend : (run step (start 5) visitRun).map
      (fun s => (s.pc, s.writeRets)) = some (.returned 0, [1, 1, 1]) := by
    decide +kernel
  obtain ⟨s, hrun, hs⟩ := Option.map_eq_some_iff.mp hend
  obtain ⟨hpc, hrets⟩ := Prod.mk.inj hs
  exact ⟨s, hrun, hpc, hrets,
    led_truthful (r := goodRets) (g := 5) (by decide) hrun⟩

end EmbeddedSystem.Team.ServerMain
