import EmbeddedSystem.Verified.GpioLine
import EmbeddedSystem.Verified.SelfTimer

/-!
# Unloading `ch6` and `simple_timer`

`ch6_mod_202111360.c` copies a switch to an LED twice a second, and
`simple_timer.c` prints a counter every two seconds.  Both do so in the
callback of a timer that arms itself, and both exit functions delete it with
`del_timer` (`stops_iff_inTime`).
-/

set_option autoImplicit false

namespace EmbeddedSystem.Labs.TimerUnload

open EmbeddedSystem.Verified
open EmbeddedSystem.Verified.Transition
open EmbeddedSystem.Verified.SelfTimer

/-- `msecs_to_jiffies` -/
def msecsToJiffies (hz ms : Nat) : Nat := (ms * hz + 999) / 1000

/-! ## `ch6_mod_202111360.c` -/

/-- The module's pins and `my_timer.delay_jiffies`. -/
structure Ch6 where
  led : GpioLine
  switch : GpioInput
  delayJiffies : Nat
deriving DecidableEq, Repr

/-- The statements of `ch6_timer_func` before its `mod_timer`. -/
inductive Ch6TimerFunc where
  | getValue
  | setLed (sw : Int)
deriving DecidableEq, Repr

/-- The statements of `ch6_exit` behind its `del_timer`. -/
inductive Ch6Exit where
  | setLow
  | freeSwitch
  | freeLed
deriving DecidableEq, Repr

/-- `level` is what the switch reads. -/
def ch6TimerFunc (g : Ch6) : Ch6TimerFunc → Int → Ch6 × Option Ch6TimerFunc
  | .getValue, level =>
      ({ g with switch := g.switch.gpioGetValue }, some (.setLed level))
  | .setLed sw, _ => ({ g with led := g.led.gpioSetValue (sw == 1) }, none)

def ch6Exit (g : Ch6) : Ch6Exit → Ch6 × Option Ch6Exit
  | .setLow => ({ g with led := g.led.gpioSetValue false }, some .freeSwitch)
  | .freeSwitch => ({ g with switch := g.switch.gpioFree }, some .freeLed)
  | .freeLed => ({ g with led := g.led.gpioFree }, none)

def ch6 : Program Ch6 Ch6TimerFunc Ch6Exit Int where
  first := .getValue
  body := ch6TimerFunc
  delayJiffies := Ch6.delayJiffies
  cleanup := some .setLow
  exit := ch6Exit

abbrev Ch6State := SelfTimer.State Ch6 Ch6TimerFunc Ch6Exit

/-- Before the module is loaded. -/
def ch6Unloaded (jiffies : Nat) (level : Bool) : Ch6State :=
  { shared := ⟨.unused level, .unused, 0⟩
    jiffies := jiffies
    expires := none
    callback := none
    exitPc := .loaded }

/-- `ch6_init`.  The calls of `gpio_request_one` return `ledRet` and
`switchRet`. -/
def ch6Init (hz : Nat) (ledRet switchRet : Int) (s : Ch6State) :
    Ch6State × Int :=
  let g := s.shared
  if ledRet ≠ 0 then (s, ledRet)
  else
    let led := g.led.gpioRequest.gpioDirectionOutput false
    if switchRet ≠ 0 then
      ({ s with shared := { g with led := led.gpioFree } }, switchRet)
    else
      let delay := msecsToJiffies hz 500
      ({ s with
          shared := ⟨led, g.switch.gpioRequest, delay⟩
          expires := some (s.jiffies + delay) }, 0)

/-! ## `simple_timer.c` -/

/-- `my_timer`, less the `timer_list`. -/
structure SimpleTimer where
  delayJiffies : Nat
  data : BitVec 32
deriving DecidableEq, Repr

/-- The statements of `my_timer_func` before its `mod_timer`. -/
inductive MyTimerFunc where
  | print
  | increment
deriving DecidableEq, Repr

def myTimerFunc (g : SimpleTimer) :
    MyTimerFunc → Unit → SimpleTimer × Option MyTimerFunc
  | .print, _ => (g, some .increment)
  | .increment, _ => ({ g with data := g.data + 1 }, none)

/-- Behind its `del_timer`, `simple_timer_exit` has no statements. -/
def simpleTimer : Program SimpleTimer MyTimerFunc Empty Unit where
  first := .print
  body := myTimerFunc
  delayJiffies := SimpleTimer.delayJiffies
  cleanup := none
  exit := fun g _ => (g, none)

/-- After `simple_timer_init`, which cannot fail. -/
def simpleTimerInit (hz jiffies : Nat) :
    SelfTimer.State SimpleTimer MyTimerFunc Empty :=
  { shared := ⟨msecsToJiffies hz 2000, 100⟩
    jiffies := jiffies
    expires := some (jiffies + msecsToJiffies hz 2000)
    callback := none
    exitPc := .loaded }

/-! ## The pins of `ch6` -/

/-- The timer is quiet when `ch6_exit` has returned, and no callback has met
a freed pin. -/
structure Ch6Gone (s : Ch6State) : Prop where
  gone : s.Gone
  led : s.shared.led.strays = 0
  switch : s.shared.switch.strays = 0

/-- As long as a callback may use them, `ch6` holds its pins. -/
structure Held (s : Ch6State) : Prop where
  stopped : Stopped s
  pins : s.exitPc.deleted = false ∨ s.exitPc = .rest .setLow →
    s.shared.led.requested = true ∧ s.shared.switch.requested = true
  led : s.shared.led.strays = 0
  switch : s.shared.switch.strays = 0

theorem Held.gone {s : Ch6State} (h : Held s) : Ch6Gone s :=
  ⟨h.stopped.gone, h.led, h.switch⟩

theorem ch6Init_held {hz jiffies : Nat} {level : Bool} {ledRet switchRet : Int}
    {s : Ch6State}
    (h : ch6Init hz ledRet switchRet (ch6Unloaded jiffies level) = (s, 0)) :
    s.exitPc = .loaded ∧ Held s := by
  unfold ch6Init at h
  dsimp only at h
  split at h
  case isTrue hne =>
    rw [Prod.mk.injEq] at h
    exact absurd h.2 hne
  case isFalse =>
  split at h
  case isTrue hne =>
    rw [Prod.mk.injEq] at h
    exact absurd h.2 hne
  case isFalse =>
    rw [Prod.mk.injEq] at h
    rw [← h.1]
    exact ⟨rfl, loaded_stopped rfl, fun _ => ⟨rfl, rfl⟩, rfl, rfl⟩

/-- A step that leaves the pins alone and the exit function where it is. -/
theorem Held.congr {s t : Ch6State} (h : Held s) (hstopped : Stopped t)
    (hpc : t.exitPc = s.exitPc) (hshared : t.shared = s.shared) : Held t := by
  refine ⟨hstopped, ?_, ?_, ?_⟩
  · rw [hpc, hshared]
    exact h.pins
  · rw [hshared]
    exact h.led
  · rw [hshared]
    exact h.switch

theorem Held.step {s t : Ch6State} {mv : SelfTimer.Move Int} (h : Held s)
    (hin : InTime s mv) (hst : step ch6 s mv = some t) : Held t := by
  have hstopped := h.stopped.step hin hst
  cases step_step hst with
  | tick => exact h.congr hstopped rfl rfl
  | fire e he hidle => exact h.congr hstopped rfl rfl
  | modTimer i hc => exact h.congr hstopped rfl rfl
  | leave i hc => exact h.congr hstopped rfl rfl
  | body c i hc =>
      have halive : s.alive = true := by
        simp [State.alive, State.rearming, hc, CallbackPc.rearms]
      have hpins := h.pins (Or.inl (h.stopped.not_deleted halive))
      cases c with
      | getValue =>
          refine ⟨hstopped, fun _ => hpins, h.led, ?_⟩
          show s.shared.switch.gpioGetValue.strays = 0
          rw [GpioInput.strays_gpioGetValue hpins.2]
          exact h.switch
      | setLed sw =>
          refine ⟨hstopped, fun _ => hpins, ?_, h.switch⟩
          show (s.shared.led.gpioSetValue (sw == 1)).strays = 0
          rw [GpioLine.strays_gpioSetValue hpins.1]
          exact h.led
  | call hpc =>
      have hpins := h.pins (Or.inl (by rw [hpc]; rfl))
      exact ⟨hstopped, fun _ => hpins, h.led, h.switch⟩
  | delTimer hpc =>
      have hpins := h.pins (Or.inl (by rw [hpc]; rfl))
      exact ⟨hstopped, fun _ => hpins, h.led, h.switch⟩
  | rest x hpc =>
      cases x with
      | setLow =>
          have hpins := h.pins (Or.inr hpc)
          refine ⟨hstopped, fun hor => ?_, ?_, h.switch⟩
          · rcases hor with hdel | hlow
            · cases hdel
            · cases hlow
          · show (s.shared.led.gpioSetValue false).strays = 0
            rw [GpioLine.strays_gpioSetValue hpins.1]
            exact h.led
      | freeSwitch =>
          refine ⟨hstopped, fun hor => ?_, h.led, h.switch⟩
          rcases hor with hdel | hlow
          · cases hdel
          · cases hlow
      | freeLed =>
          refine ⟨hstopped, fun hor => ?_, h.led, h.switch⟩
          rcases hor with hdel | hlow
          · cases hdel
          · cases hlow
  | ret hpc =>
      refine ⟨hstopped, fun hor => ?_, h.led, h.switch⟩
      rcases hor with hdel | hlow
      · cases hdel
      · cases hlow

/-! ## The result -/

/-- `P` holds throughout the runs of the module whose steps are all in time,
and throughout no other run that comes to the return of the exit function. -/
def StopsInTime {G C X I : Type} (p : Program G C X I)
    (P : SelfTimer.State G C X → Prop) (s₀ : SelfTimer.State G C X) : Prop :=
  ∀ mvs s, run (step p) s₀ mvs = some s →
    (Along (step p) InTime s₀ mvs → Throughout (step p) P s₀ mvs) ∧
      (s.exitPc = .returned → Throughout (step p) P s₀ mvs →
        Along (step p) InTime s₀ mvs)

/-- When `ch6_exit` has returned, the timer is not pending, its callback is
not in progress and has used no freed pin, exactly in the runs in which
`del_timer` finds no callback before its `mod_timer`, and one that it finds
behind it returns before `ch6_exit` does.  The same goes for the timer of
`simple_timer`. -/
theorem stops_iff_inTime (hz jiffies : Nat) :
    (∀ level ledRet switchRet s₀,
      ch6Init hz ledRet switchRet (ch6Unloaded jiffies level) = (s₀, 0) →
      StopsInTime ch6 Ch6Gone s₀) ∧
    StopsInTime simpleTimer State.Gone (simpleTimerInit hz jiffies) := by
  constructor
  · intro level ledRet switchRet s₀ hinit mvs s hrun
    obtain ⟨hloaded, hheld⟩ := ch6Init_held hinit
    constructor
    · intro hin xs ys t hsplit hxs
      rw [hsplit] at hin
      exact (run_induct_along (fun _ _ _ h hC hst => Held.step h hC hst)
        hheld hin.of_append hxs).gone
    · intro hret hgone
      refine (quiet_iff_inTime hloaded hrun).2 hret ?_
      exact fun xs ys t hsplit hxs => (hgone xs ys t hsplit hxs).gone
  · intro mvs s hrun
    exact quiet_iff_inTime rfl hrun

/-- `ch6` right after it was loaded, with `HZ` 100. -/
def ch6Loaded : Ch6State :=
  { shared := ⟨⟨false, true, 0, 0⟩, ⟨true, 0⟩, 50⟩
    jiffies := 0
    expires := some 50
    callback := none
    exitPc := .loaded }

/-- The callback runs once, then the module is unloaded. -/
def unloadRun : List (SelfTimer.Move Int) :=
  List.flatten
    [ List.replicate 50 .tick
    , [.fire, .callback 1, .callback 1, .callback 1, .callback 1]
    , List.replicate 6 .exit ]

theorem stops_iff_inTime_unloadRun :
    ∃ s, run (step ch6) ch6Loaded unloadRun = some s ∧
      s.exitPc = .returned ∧ Ch6Gone s := by
  have hinit : ch6Init 100 0 0 (ch6Unloaded 0 true) = (ch6Loaded, 0) := by
    decide
  have hend : (run (step ch6) ch6Loaded unloadRun).map
      (fun s => s.exitPc) = some .returned := by
    decide +kernel
  obtain ⟨s, hrun, hpc⟩ := Option.map_eq_some_iff.mp hend
  have hall := ((stops_iff_inTime 100 0).1 true 0 0 ch6Loaded hinit
    unloadRun s hrun).1 (by decide +kernel)
  exact ⟨s, hrun, hpc, hall unloadRun [] s (List.append_nil _).symm hrun⟩

/-- `ch6_exit` comes while the callback has read the switch and not yet set
the LED. -/
def overlapRun : List (SelfTimer.Move Int) :=
  List.flatten
    [ List.replicate 50 .tick
    , [.fire, .callback 1]
    , List.replicate 6 .exit
    , [.callback 1, .callback 1] ]

/-- The callback sets the freed LED, and the timer is pending again. -/
theorem overlapRun_strays :
    ∃ s, run (step ch6) ch6Loaded overlapRun = some s ∧
      s.exitPc = .returned ∧ s.expires = some 100 ∧
      s.shared.led.strays = 1 ∧ ¬ Ch6Gone s := by
  have hend : (run (step ch6) ch6Loaded overlapRun).map
      (fun s => (s.exitPc, s.expires, s.shared.led.strays)) =
        some (.returned, some 100, 1) := by
    decide +kernel
  obtain ⟨s, hrun, hs⟩ := Option.map_eq_some_iff.mp hend
  simp only [Prod.mk.injEq] at hs
  obtain ⟨hpc, hexp, hstrays⟩ := hs
  refine ⟨s, hrun, hpc, hexp, hstrays, fun h => ?_⟩
  have hnone := (h.gone hpc).1
  rw [hexp] at hnone
  cases hnone

end EmbeddedSystem.Labs.TimerUnload
