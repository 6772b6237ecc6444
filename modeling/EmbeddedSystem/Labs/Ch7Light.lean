import EmbeddedSystem.Verified.GpioLine
import EmbeddedSystem.Verified.IrqLine
import EmbeddedSystem.Verified.KernelTimer
import EmbeddedSystem.Verified.Transition

/-!
# The motion light of `ch7_mod_202111360.c`

A PIR sensor's interrupt turns the LED on, off first if it is lit, and arms
`led_timer` ten seconds ahead; the timer's callback turns the LED off.  Both
do so under `led_lock`, so their locked sections are atomic steps.  A timer
that fires and the locked section of the callback it started are two steps,
and a detection may run between them.

`Lit` is the invariant of a loaded module: the flag follows the pin, a lit
LED has somebody who will turn it off, and every detection raised the pin.
The LED stays lit for ten seconds after a detection exactly if no callback
runs its locked section before that time is over (`lightOn_iff_notStale`); a
detection that overtakes no callback is never cut short by one
(`Punctual.notStale`).
-/

set_option autoImplicit false

namespace EmbeddedSystem.Labs.Ch7Light

open EmbeddedSystem.Verified
open EmbeddedSystem.Verified.Transition

/-! ## State -/

/-- Where `pir_irq_handler` stands. -/
inductive HandlerPc where
  | idle
  | entered
  | leaving
deriving DecidableEq, Repr

/-- The module's globals, its pins, timer and interrupt line, and `jiffies`.
`lastDetect` is the time of the last detection; no code reads it. -/
structure Ch7 where
  jiffies : Nat
  pirRequested : Bool
  led : GpioLine
  ledOn : Bool
  ledTimer : KernelTimer
  pirLine : IrqLine
  handler : HandlerPc
  lastDetect : Option Nat
deriving DecidableEq, Repr

/-- Before the module is loaded. -/
def unloaded (jiffies : Nat) (level : Bool) : Ch7 :=
  { jiffies := jiffies
    pirRequested := false
    led := .unused level
    ledOn := false
    ledTimer := .timerSetup
    pirLine := .unused
    handler := .idle
    lastDetect := none }

/-! ## `ch7_mod_init` -/

/-- What the calls in `ch7_mod_init` return. -/
structure InitRets where
  pirRequest : Int
  pirDirection : Int
  ledRequest : Int
  ledDirection : Int
  pirIrq : Int
  requestIrq : Int
deriving DecidableEq, Repr

/-- `gpio_free(LED_GPIO); gpio_free(PIR_GPIO)`. -/
def freeGpios (s : Ch7) : Ch7 :=
  { s with led := s.led.gpioFree, pirRequested := false }

def ch7ModInit (r : InitRets) (s : Ch7) : Ch7 × Int :=
  if r.pirRequest ≠ 0 then (s, r.pirRequest)
  else
    let s := { s with pirRequested := true }
    if r.pirDirection ≠ 0 then ({ s with pirRequested := false }, r.pirDirection)
    else if r.ledRequest ≠ 0 then
      ({ s with pirRequested := false }, r.ledRequest)
    else
      let s := { s with led := s.led.gpioRequest }
      if r.ledDirection ≠ 0 then (freeGpios s, r.ledDirection)
      else
        let s :=
          { s with
            led := s.led.gpioDirectionOutput false
            ledTimer := .timerSetup }
        if r.pirIrq < 0 then (freeGpios s, r.pirIrq)
        else if r.requestIrq ≠ 0 then
          (freeGpios { s with
              ledTimer := s.ledTimer.delTimerSync.getD s.ledTimer },
            r.requestIrq)
        else ({ s with pirLine := s.pirLine.requestIrq }, 0)

/-- The module right after it was loaded. -/
def loaded (jiffies : Nat) : Ch7 :=
  { jiffies := jiffies
    pirRequested := true
    led := ⟨false, true, 0, 0⟩
    ledOn := false
    ledTimer := .timerSetup
    pirLine := IrqLine.unused.requestIrq
    handler := .idle
    lastDetect := none }

/-- No pin is requested, no handler installed and no timer running. -/
structure HoldsNothing (s : Ch7) : Prop where
  pir : s.pirRequested = false
  led : s.led.requested = false
  irq : s.pirLine.handled = false
  timer : s.ledTimer.Quiet

/-- Either `ch7_mod_init` succeeds and the LED is off, or it fails and holds
nothing. -/
theorem ch7ModInit_cases (r : InitRets) (jiffies : Nat) (level : Bool) :
    ch7ModInit r (unloaded jiffies level) = (loaded jiffies, 0) ∨
      ((ch7ModInit r (unloaded jiffies level)).2 ≠ 0 ∧
        HoldsNothing (ch7ModInit r (unloaded jiffies level)).1) := by
  have hquiet := KernelTimer.timerSetup_quiet
  unfold ch7ModInit
  split
  case isTrue hret => exact Or.inr ⟨hret, ⟨rfl, rfl, rfl, hquiet⟩⟩
  dsimp only
  split
  case isTrue hret => exact Or.inr ⟨hret, ⟨rfl, rfl, rfl, hquiet⟩⟩
  split
  case isTrue hret => exact Or.inr ⟨hret, ⟨rfl, rfl, rfl, hquiet⟩⟩
  split
  case isTrue hret => exact Or.inr ⟨hret, ⟨rfl, rfl, rfl, hquiet⟩⟩
  split
  case isTrue hirq =>
    have hret : r.pirIrq ≠ 0 := by omega
    exact Or.inr ⟨hret, ⟨rfl, rfl, rfl, hquiet⟩⟩
  split
  case isTrue hret => exact Or.inr ⟨hret, ⟨rfl, rfl, rfl, hquiet⟩⟩
  case isFalse =>
    left
    simp [unloaded, loaded, GpioLine.unused, GpioLine.gpioRequest,
      GpioLine.gpioDirectionOutput]

/-! ## The loaded module -/

/-- The locked section of `pir_irq_handler`; `hz` is `HZ`. -/
def pirIrqHandler (hz : Nat) (s : Ch7) : Ch7 :=
  let led := if s.ledOn then s.led.gpioSetValue false else s.led
  { s with
    led := led.gpioSetValue true
    ledOn := true
    ledTimer := s.ledTimer.modTimer (s.jiffies + 10 * hz)
    lastDetect := some s.jiffies }

/-- The locked section of `led_timer_func`. -/
def ledTimerFunc (s : Ch7) : Ch7 :=
  { s with led := s.led.gpioSetValue false, ledOn := false }

/-- What can happen to a loaded module. -/
inductive Event where
  /-- `jiffies` advances -/
  | tick
  /-- the interrupt is delivered -/
  | interrupt
  /-- the handler's locked section -/
  | detect
  | handlerReturn
  /-- the timer fires -/
  | fire
  /-- the callback's locked section -/
  | expire
  | callbackReturn
deriving DecidableEq, Repr

/-- One event.  A line does not interrupt while its handler runs. -/
def step (hz : Nat) (s : Ch7) : Event → Option Ch7
  | .tick => some { s with jiffies := s.jiffies + 1 }
  | .interrupt =>
      if s.pirLine.enabled = true ∧ s.handler = .idle then
        some { s with handler := .entered }
      else none
  | .detect =>
      if s.handler = .entered then
        some { pirIrqHandler hz s with handler := .leaving }
      else none
  | .handlerReturn =>
      if s.handler = .leaving then some { s with handler := .idle } else none
  | .fire => (s.ledTimer.fire s.jiffies).map fun t => { s with ledTimer := t }
  | .expire =>
      s.ledTimer.body.map fun t => { ledTimerFunc s with ledTimer := t }
  | .callbackReturn => s.ledTimer.finish.map fun t => { s with ledTimer := t }

/-- Everything one event can do. -/
inductive Step (hz : Nat) (s : Ch7) : Event → Ch7 → Prop where
  | tick : Step hz s .tick { s with jiffies := s.jiffies + 1 }
  | interrupt (hen : s.pirLine.enabled = true) (hidle : s.handler = .idle) :
      Step hz s .interrupt { s with handler := .entered }
  | detect (hpc : s.handler = .entered) :
      Step hz s .detect { pirIrqHandler hz s with handler := .leaving }
  | handlerReturn (hpc : s.handler = .leaving) :
      Step hz s .handlerReturn { s with handler := .idle }
  | fire (e : Nat) (he : s.ledTimer.expires = some e) (hle : e ≤ s.jiffies) :
      Step hz s .fire { s with ledTimer :=
        { s.ledTimer with expires := none, fired := s.ledTimer.fired + 1 } }
  | expire (hfired : 0 < s.ledTimer.fired) :
      Step hz s .expire { ledTimerFunc s with ledTimer :=
        { s.ledTimer with
          fired := s.ledTimer.fired - 1
          leaving := s.ledTimer.leaving + 1 } }
  | callbackReturn (hleaving : 0 < s.ledTimer.leaving) :
      Step hz s .callbackReturn { s with ledTimer :=
        { s.ledTimer with leaving := s.ledTimer.leaving - 1 } }

theorem step_step {hz : Nat} {s t : Ch7} {e : Event}
    (h : step hz s e = some t) : Step hz s e t := by
  cases e with
  | tick =>
      simp only [step, Option.some.injEq] at h
      subst h
      exact .tick
  | interrupt =>
      simp only [step] at h
      split at h
      case isTrue hc =>
        cases h
        exact .interrupt hc.1 hc.2
      case isFalse => cases h
  | detect =>
      simp only [step] at h
      split at h
      case isTrue hc =>
        cases h
        exact .detect hc
      case isFalse => cases h
  | handlerReturn =>
      simp only [step] at h
      split at h
      case isTrue hc =>
        cases h
        exact .handlerReturn hc
      case isFalse => cases h
  | fire =>
      simp only [step, Option.map_eq_some_iff] at h
      obtain ⟨t', ht, hs⟩ := h
      obtain ⟨e, he, hle, heq⟩ := KernelTimer.fire_cases ht
      subst hs heq
      exact .fire e he hle
  | expire =>
      simp only [step, Option.map_eq_some_iff] at h
      obtain ⟨t', ht, hs⟩ := h
      obtain ⟨hfired, heq⟩ := KernelTimer.body_cases ht
      subst hs heq
      exact .expire hfired
  | callbackReturn =>
      simp only [step, Option.map_eq_some_iff] at h
      obtain ⟨t', ht, hs⟩ := h
      obtain ⟨hleaving, heq⟩ := KernelTimer.finish_cases ht
      subst hs heq
      exact .callbackReturn hleaving

/-! ## Never stuck on, every detection visible -/

/-- The flag follows the pin, and somebody will turn a lit LED off. -/
structure Lit (s : Ch7) : Prop where
  flag : s.ledOn = s.led.level
  watched : s.led.level = true →
    s.ledTimer.expires ≠ none ∨ 0 < s.ledTimer.fired

theorem loaded_lit (jiffies : Nat) : Lit (loaded jiffies) := by
  refine
    { flag := rfl
      watched := fun h => by cases h }

theorem Lit.step {hz : Nat} {s t : Ch7} {e : Event} (h : Lit s)
    (hst : Ch7Light.step hz s e = some t) : Lit t := by
  cases step_step hst with
  | tick => exact ⟨h.flag, h.watched⟩
  | interrupt hen hidle => exact ⟨h.flag, h.watched⟩
  | detect hpc =>
      refine
        { flag := rfl
          watched := fun _ => Or.inl ?_ }
      simp [pirIrqHandler, KernelTimer.modTimer]
  | handlerReturn hpc => exact ⟨h.flag, h.watched⟩
  | fire e he hle =>
      refine
        { flag := h.flag
          watched := fun _ => Or.inr ?_ }
      exact Nat.succ_pos _
  | expire hfired =>
      refine
        { flag := rfl
          watched := fun hlit => ?_ }
      cases hlit
  | callbackReturn hleaving => exact ⟨h.flag, h.watched⟩

/-- A detection raises the pin, whether the LED was lit or not. -/
theorem pirIrqHandler_rises {hz : Nat} {s : Ch7}
    (hflag : s.ledOn = s.led.level) :
    (pirIrqHandler hz s).led.rises = s.led.rises + 1 := by
  unfold pirIrqHandler
  cases hon : s.ledOn with
  | true =>
      show ((s.led.gpioSetValue false).gpioSetValue true).rises = _
      simp [GpioLine.rises_gpioSetValue_true]
  | false =>
      have hlow : s.led.level = false := by
        rw [← hflag]
        exact hon
      show (s.led.gpioSetValue true).rises = _
      simp [GpioLine.rises_gpioSetValue_true, hlow]

/-- Nothing but a detection raises the pin. -/
theorem Lit.rises {hz : Nat} {s t : Ch7} {e : Event} (h : Lit s)
    (hst : Ch7Light.step hz s e = some t) :
    t.led.rises = s.led.rises + [e].count .detect := by
  cases step_step hst with
  | detect hpc =>
      show (pirIrqHandler hz s).led.rises = _
      rw [pirIrqHandler_rises h.flag]
      rfl
  | expire hfired =>
      show (s.led.gpioSetValue false).rises = _
      rw [GpioLine.rises_gpioSetValue_false]
      rfl
  | _ => rfl

/-- A run raises the pin once for every detection in it. -/
theorem Lit.rises_run {hz : Nat} {s t : Ch7} {es : List Event} (h : Lit s)
    (hrun : run (Ch7Light.step hz) s es = some t) :
    t.led.rises = s.led.rises + es.count .detect := by
  induction es generalizing s with
  | nil =>
      rw [run_nil, Option.some.injEq] at hrun
      rw [hrun]
      rfl
  | cons e es ih =>
      obtain ⟨m, hm, hrest⟩ := run_cons_some hrun
      have hhead := h.rises hm
      have htail := ih (h.step hm) hrest
      have hsplit : (e :: es).count Event.detect =
          [e].count .detect + es.count .detect := by
        rw [← List.count_append]
        rfl
      omega

/-- A module that was loaded successfully started with its LED off. -/
theorem loaded_of_init {r : InitRets} {jiffies : Nat} {level : Bool} {s : Ch7}
    (hinit : ch7ModInit r (unloaded jiffies level) = (s, 0)) :
    s = loaded jiffies := by
  rcases ch7ModInit_cases r jiffies level with hok | ⟨hfail, -⟩
  · rw [hinit] at hok
    exact congrArg Prod.fst hok
  · rw [hinit] at hfail
    exact absurd rfl hfail

/-- In every state that the loaded module can reach: `led_on` is the level of
the LED; if the LED is lit, the timer is pending or a callback has fired and
not run its locked section; and the LED was raised once for every locked
section of `pir_irq_handler`. -/
theorem light_never_stuck {hz : Nat} {r : InitRets} {jiffies : Nat}
    {level : Bool} {s₀ s : Ch7} {es : List Event}
    (hinit : ch7ModInit r (unloaded jiffies level) = (s₀, 0))
    (hrun : run (step hz) s₀ es = some s) :
    s.ledOn = s.led.level ∧
      (s.led.level = true →
        s.ledTimer.expires ≠ none ∨ 0 < s.ledTimer.fired) ∧
      s.led.rises = es.count .detect := by
  have hstart := loaded_of_init hinit
  subst hstart
  have hlit : Lit s :=
    run_induct (fun _ _ _ h hst => Lit.step h hst) (loaded_lit jiffies) hrun
  have hrises := (loaded_lit jiffies).rises_run hrun
  have hzero : (loaded jiffies).led.rises = 0 := rfl
  exact ⟨hlit.flag, hlit.watched, by omega⟩

/-- `ch7_mod_init` with every call successful, at time 5 with the pin high. -/
def goodRets : InitRets := ⟨0, 0, 0, 0, 33, 0⟩

/-- A detection, and another one while the LED is lit. -/
def redetectRun : List Event :=
  [ .interrupt, .detect, .handlerReturn, .tick
  , .interrupt, .detect, .handlerReturn ]

theorem light_never_stuck_redetectRun :
    ∃ s, run (step 1) (loaded 5) redetectRun = some s ∧
      s.led.level = true ∧ s.led.rises = 2 := by
  have hend : (run (step 1) (loaded 5) redetectRun).map
      (fun s => s.led.level) = some true := by
    decide +kernel
  obtain ⟨s, hrun, hlit⟩ := Option.map_eq_some_iff.mp hend
  have hinit : ch7ModInit goodRets (unloaded 5 true) = (loaded 5, 0) := by
    decide
  have hall := light_never_stuck hinit hrun
  exact ⟨s, hrun, hlit, hall.2.2⟩

/-! ## Lit for the full interval -/

/-- Within ten seconds after the last detection the LED is lit. -/
def LightOn (hz : Nat) (s : Ch7) : Prop :=
  ∀ d ∈ s.lastDetect, s.jiffies < d + 10 * hz → s.led.level = true

/-- A callback runs its locked section no earlier than ten seconds after the
last detection. -/
def NotStale (hz : Nat) (s : Ch7) : Event → Prop
  | .expire => ∀ d ∈ s.lastDetect, d + 10 * hz ≤ s.jiffies
  | _ => True

/-- A detection overtakes no callback: none has fired without having run its
locked section. -/
def Unovertaken (s : Ch7) : Event → Prop
  | .detect => s.ledTimer.fired = 0
  | _ => True

instance (s : Ch7) : ∀ e, Decidable (Unovertaken s e)
  | .detect => inferInstanceAs (Decidable (_ = _))
  | .tick | .interrupt | .handlerReturn | .fire | .expire | .callbackReturn =>
      inferInstanceAs (Decidable True)

theorem LightOn.step {hz : Nat} {s t : Ch7} {e : Event} (h : LightOn hz s)
    (hfresh : NotStale hz s e) (hst : Ch7Light.step hz s e = some t) :
    LightOn hz t := by
  cases step_step hst with
  | tick =>
      intro d hd hlt
      have hlt' : s.jiffies + 1 < d + 10 * hz := hlt
      exact h d hd (by omega)
  | detect hpc =>
      intro d hd hlt
      rfl
  | expire hfired =>
      intro d hd hlt
      have hover : d + 10 * hz ≤ s.jiffies := hfresh d hd
      have hlt' : s.jiffies < d + 10 * hz := hlt
      omega
  | interrupt hen hidle => exact h
  | handlerReturn hpc => exact h
  | fire e he hle => exact h
  | callbackReturn hleaving => exact h

/-- A callback that runs too early turns the LED off too early. -/
theorem not_lightOn_of_stale {hz : Nat} {s t : Ch7} {e : Event}
    (hstale : ¬ NotStale hz s e) (hst : Ch7Light.step hz s e = some t) :
    ¬ LightOn hz t := by
  cases step_step hst with
  | expire hfired =>
      simp only [NotStale, Classical.not_forall] at hstale
      obtain ⟨d, hd, hearly⟩ := hstale
      intro hon
      have hlit : (s.led.gpioSetValue false).level = true :=
        hon d hd (Nat.lt_of_not_le hearly)
      cases hlit
  | _ => exact absurd trivial hstale

/-- The timer's times follow the last detection: a pending timer expires ten
seconds after it, and a callback that has fired did so no earlier. -/
structure Punctual (hz : Nat) (s : Ch7) : Prop where
  pending : ∀ e ∈ s.ledTimer.expires, ∀ d ∈ s.lastDetect, e = d + 10 * hz
  fired : 0 < s.ledTimer.fired →
    ∀ d ∈ s.lastDetect, d + 10 * hz ≤ s.jiffies

theorem Punctual.step {hz : Nat} {s t : Ch7} {e : Event}
    (h : Punctual hz s) (hun : Unovertaken s e)
    (hst : Ch7Light.step hz s e = some t) : Punctual hz t := by
  cases step_step hst with
  | tick =>
      refine ⟨h.pending, ?_⟩
      intro hfired d hd
      have hle := h.fired hfired d hd
      exact Nat.le_succ_of_le hle
  | detect hpc =>
      refine ⟨?_, ?_⟩
      · intro e he d hd
        cases he
        cases hd
        rfl
      · intro hfired
        have hnone : s.ledTimer.fired = 0 := hun
        have hsome : 0 < s.ledTimer.fired := hfired
        omega
  | fire e he hle =>
      refine ⟨?_, ?_⟩
      · intro e' he'
        cases he'
      · intro _ d hd
        have heq := h.pending e he d hd
        show d + 10 * hz ≤ s.jiffies
        omega
  | expire hfired => exact ⟨h.pending, fun _ => h.fired hfired⟩
  | interrupt hen hidle => exact ⟨h.pending, h.fired⟩
  | handlerReturn hpc => exact ⟨h.pending, h.fired⟩
  | callbackReturn hleaving => exact ⟨h.pending, h.fired⟩

/-- Under `Unovertaken` no callback is stale. -/
theorem Punctual.notStale {hz : Nat} {s t : Ch7} {e : Event}
    (h : Punctual hz s) (hst : Ch7Light.step hz s e = some t) :
    NotStale hz s e := by
  cases step_step hst with
  | expire hfired => exact h.fired hfired
  | _ => trivial

/-- In a run of the loaded module the LED is lit for the full ten seconds
after every detection if and only if no callback runs its locked section
within ten seconds after the last detection; and that is so if no detection
runs between the firing of the timer and the locked section of the callback
it started. -/
theorem lightOn_iff_notStale {hz : Nat} {r : InitRets} {jiffies : Nat}
    {level : Bool} {s₀ s : Ch7} {es : List Event}
    (hinit : ch7ModInit r (unloaded jiffies level) = (s₀, 0))
    (hrun : run (step hz) s₀ es = some s) :
    (Throughout (step hz) (LightOn hz) s₀ es ↔
        Along (step hz) (NotStale hz) s₀ es) ∧
      (Along (step hz) Unovertaken s₀ es →
        Along (step hz) (NotStale hz) s₀ es) := by
  have hstart := loaded_of_init hinit
  subst hstart
  constructor
  · have hon : LightOn hz (loaded jiffies) := by
      intro d hd
      cases hd
    exact throughout_iff_along (I := LightOn hz)
      (fun _ _ _ h hC hst => h.step hC hst)
      (fun _ h => h)
      (fun _ _ _ _ hC hst => not_lightOn_of_stale hC hst)
      hon hrun
  · intro hun
    have hpunctual : Punctual hz (loaded jiffies) := by
      refine ⟨?_, ?_⟩
      · intro e he
        cases he
      · intro hfired
        cases hfired
    exact hun.weaken (I := Punctual hz)
      (fun _ _ _ h hC hst => h.step hC hst)
      (fun _ _ _ h _ hst => h.notStale hst)
      hpunctual hrun

/-- The LED goes off after ten seconds and on again with the next
detection. -/
def onTimeRun : List Event :=
  List.flatten
    [ [.interrupt, .detect, .handlerReturn]
    , List.replicate 10 .tick
    , [.fire, .expire, .callbackReturn]
    , [.interrupt, .detect, .handlerReturn] ]

theorem lightOn_iff_notStale_onTimeRun :
    ∃ s, run (step 1) (loaded 5) onTimeRun = some s ∧
      Throughout (step 1) (LightOn 1) (loaded 5) onTimeRun := by
  have hsome : (run (step 1) (loaded 5) onTimeRun).isSome = true := by
    decide +kernel
  obtain ⟨s, hrun⟩ := Option.isSome_iff_exists.mp hsome
  have hinit : ch7ModInit goodRets (unloaded 5 true) = (loaded 5, 0) := by
    decide
  have hall := lightOn_iff_notStale hinit hrun
  exact ⟨s, hrun, hall.1.mpr (hall.2 (by decide +kernel))⟩

/-- A detection runs after the timer has fired and before the callback takes
the lock, with `HZ` = 100. -/
def overtakeRun : List Event :=
  List.flatten
    [ [.interrupt, .detect, .handlerReturn]
    , List.replicate 1000 .tick
    , [.fire, .interrupt, .detect, .expire] ]

/-- The callback turns the LED off in the moment of that detection. -/
theorem overtakeRun_dark :
    ∃ s, run (step 100) (loaded 5) overtakeRun = some s ∧
      ¬ LightOn 100 s := by
  have hend : (run (step 100) (loaded 5) overtakeRun).map
      (fun s => (s.lastDetect, s.jiffies, s.led.level)) =
        some (some 1005, 1005, false) := by
    decide +kernel
  obtain ⟨s, hrun, hs⟩ := Option.map_eq_some_iff.mp hend
  simp only [Prod.mk.injEq] at hs
  obtain ⟨hlast, hnow, hdark⟩ := hs
  refine ⟨s, hrun, fun hon => ?_⟩
  have hlit := hon 1005 hlast (by omega)
  rw [hdark] at hlit
  cases hlit

end EmbeddedSystem.Labs.Ch7Light
