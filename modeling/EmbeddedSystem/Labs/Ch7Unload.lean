import EmbeddedSystem.Labs.Ch7Light

/-!
# Unloading the motion light

`ch7_mod_exit` deletes the timer before it frees the interrupt, so a
detection can still arrive in between, and its `mod_timer` arms the deleted
timer again.  If no detection does (`NotRearmed`), the module leaves nothing
behind (`Torn`).  If one does, the rest of `ch7_mod_exit` can run to its end
with the timer pending (`rearmed_outlives_exit`).
-/

set_option autoImplicit false

namespace EmbeddedSystem.Labs.Ch7Light

open EmbeddedSystem.Verified
open EmbeddedSystem.Verified.Transition

/-! ## `ch7_mod_exit` -/

/-- The next statement of `ch7_mod_exit`; `loaded` is before it is called. -/
inductive ExitPc where
  | loaded
  | delTimer
  | freeIrq
  | setLow
  | clearLedOn
  | freeLed
  | freePir
  | returned
deriving DecidableEq, Repr

/-- The module together with its exit function. -/
structure Module where
  light : Ch7
  exitPc : ExitPc
deriving DecidableEq, Repr

/-- An event of the module, or the next statement of `ch7_mod_exit`. -/
inductive Move where
  | event (e : Event)
  | exit
deriving DecidableEq, Repr

/-- One statement of `ch7_mod_exit`.  `del_timer_sync` and `free_irq` wait
for what is running. -/
def ch7ModExit (s : Ch7) : ExitPc → Option (Ch7 × ExitPc)
  | .loaded => some (s, .delTimer)
  | .delTimer =>
      s.ledTimer.delTimerSync.map fun t => ({ s with ledTimer := t }, .freeIrq)
  | .freeIrq =>
      if s.handler = .idle then
        some ({ s with pirLine := s.pirLine.freeIrq }, .setLow)
      else none
  | .setLow => some ({ s with led := s.led.gpioSetValue false }, .clearLedOn)
  | .clearLedOn => some ({ s with ledOn := false }, .freeLed)
  | .freeLed => some ({ s with led := s.led.gpioFree }, .freePir)
  | .freePir => some ({ s with pirRequested := false }, .returned)
  | .returned => none

/-- One step of the module. -/
def moduleStep (hz : Nat) (m : Module) : Move → Option Module
  | .event e => (step hz m.light e).map fun s => { m with light := s }
  | .exit =>
      (ch7ModExit m.light m.exitPc).map fun (s, pc) =>
        { light := s, exitPc := pc }

/-! ## How far the exit function is -/

/-- `del_timer_sync` has returned. -/
def ExitPc.timerDeleted : ExitPc → Bool
  | .loaded | .delTimer => false
  | _ => true

/-- `free_irq` has returned. -/
def ExitPc.irqFreed : ExitPc → Bool
  | .loaded | .delTimer | .freeIrq => false
  | _ => true

/-- The LED's `gpio_free` has returned. -/
def ExitPc.ledFreed : ExitPc → Bool
  | .freePir | .returned => true
  | _ => false

/-- Nothing is running once `ch7_mod_exit` has returned, and no
`gpio_set_value` has met a freed LED. -/
structure LeftQuiet (m : Module) : Prop where
  timer : m.exitPc = .returned → m.light.ledTimer.Quiet
  strays : m.light.led.strays = 0

/-- No detection runs its locked section after `del_timer_sync` has
returned. -/
def NotRearmed (m : Module) : Move → Prop
  | .event .detect => m.exitPc.timerDeleted = false
  | _ => True

instance (m : Module) : ∀ mv, Decidable (NotRearmed m mv)
  | .event .detect => inferInstanceAs (Decidable (_ = _))
  | .event .tick | .event .interrupt | .event .handlerReturn | .event .fire
  | .event .expire | .event .callbackReturn | .exit =>
      inferInstanceAs (Decidable True)

/-! ## Taken apart in order -/

/-- What `ch7_mod_exit` has taken down stays down. -/
structure Torn (m : Module) : Prop where
  timer : m.exitPc.timerDeleted = true → m.light.ledTimer.Quiet
  handler : m.exitPc.irqFreed = true →
    m.light.handler = .idle ∧ m.light.pirLine.handled = false
  led : m.exitPc.ledFreed = false → m.light.led.requested = true
  strays : m.light.led.strays = 0

theorem loaded_torn (jiffies : Nat) : Torn ⟨loaded jiffies, .loaded⟩ := by
  refine
    { timer := fun h => by cases h
      handler := fun h => by cases h
      led := fun _ => rfl
      strays := rfl }

theorem Torn.leftQuiet {m : Module} (h : Torn m) : LeftQuiet m := by
  refine ⟨fun hpc => h.timer ?_, h.strays⟩
  rw [hpc]
  rfl

/-- The LED is freed last. -/
theorem ExitPc.not_ledFreed {pc : ExitPc} (h : pc.irqFreed = false) :
    pc.ledFreed = false := by
  cases pc with
  | freePir => cases h
  | returned => cases h
  | _ => rfl

theorem ExitPc.not_irqFreed {pc : ExitPc} (h : pc.timerDeleted = false) :
    pc.irqFreed = false := by
  cases pc with
  | loaded => rfl
  | delTimer => rfl
  | _ => cases h

/-- A detection drives a requested LED. -/
theorem pirIrqHandler_led (hz : Nat) {s : Ch7}
    (hreq : s.led.requested = true) :
    (pirIrqHandler hz s).led.requested = true ∧
      (pirIrqHandler hz s).led.strays = s.led.strays := by
  unfold pirIrqHandler
  cases s.ledOn with
  | true =>
      refine ⟨hreq, ?_⟩
      show ((s.led.gpioSetValue false).gpioSetValue true).strays = _
      rw [GpioLine.strays_gpioSetValue (by exact hreq),
        GpioLine.strays_gpioSetValue hreq]
  | false => exact ⟨hreq, GpioLine.strays_gpioSetValue hreq true⟩

theorem Torn.event {hz : Nat} {m : Module} {e : Event} {s : Ch7}
    (h : Torn m) (hrearm : NotRearmed m (.event e))
    (hst : step hz m.light e = some s) : Torn { m with light := s } := by
  cases step_step hst with
  | tick => exact ⟨h.timer, h.handler, h.led, h.strays⟩
  | interrupt hen hidle =>
      refine ⟨h.timer, fun hfreed => ?_, h.led, h.strays⟩
      have hoff := (h.handler hfreed).2
      cases hoff.symm.trans (IrqLine.handled_of_enabled hen)
  | detect hpc =>
      have hfirst : m.exitPc.timerDeleted = false := hrearm
      have hirq := ExitPc.not_irqFreed hfirst
      have hreq := h.led (ExitPc.not_ledFreed hirq)
      refine
        { timer := fun hdel => ?_
          handler := fun hfreed => ?_
          led := fun _ => ?_
          strays := ?_ }
      · rw [hfirst] at hdel
        cases hdel
      · rw [hirq] at hfreed
        cases hfreed
      · exact (pirIrqHandler_led hz hreq).1
      · show (pirIrqHandler hz m.light).led.strays = 0
        rw [(pirIrqHandler_led hz hreq).2]
        exact h.strays
  | handlerReturn hpc =>
      refine ⟨h.timer, fun hfreed => ?_, h.led, h.strays⟩
      exact ⟨rfl, (h.handler hfreed).2⟩
  | fire e he hle =>
      refine ⟨fun hdel => ?_, h.handler, h.led, h.strays⟩
      rw [(h.timer hdel).1] at he
      cases he
  | expire hfired =>
      have hdel : m.exitPc.timerDeleted = false := by
        cases hdel : m.exitPc.timerDeleted with
        | false => rfl
        | true =>
            have hnone := (h.timer hdel).2.1
            omega
      have hreq := h.led (ExitPc.not_ledFreed (ExitPc.not_irqFreed hdel))
      refine
        { timer := fun hdel' => ?_
          handler := h.handler
          led := fun _ => hreq
          strays := ?_ }
      · rw [hdel] at hdel'
        cases hdel'
      · show (m.light.led.gpioSetValue false).strays = 0
        rw [GpioLine.strays_gpioSetValue hreq]
        exact h.strays
  | callbackReturn hleaving =>
      refine ⟨fun hdel => ?_, h.handler, h.led, h.strays⟩
      have hnone := (h.timer hdel).2.2
      omega

theorem Torn.exit {m : Module} {s : Ch7} {pc : ExitPc} (h : Torn m)
    (hst : ch7ModExit m.light m.exitPc = some (s, pc)) : Torn ⟨s, pc⟩ := by
  have htimer := h.timer
  have hhandler := h.handler
  have hled := h.led
  cases hpc : m.exitPc with
  | loaded =>
      rw [hpc] at hst hled
      cases hst
      exact ⟨fun h => (by cases h), fun h => (by cases h), hled, h.strays⟩
  | delTimer =>
      rw [hpc] at hst hled
      simp only [ch7ModExit, Option.map_eq_some_iff, Prod.mk.injEq] at hst
      obtain ⟨t, ht, hs, hnext⟩ := hst
      subst hs hnext
      exact ⟨fun _ => KernelTimer.delTimerSync_quiet ht,
        fun h => (by cases h), hled, h.strays⟩
  | freeIrq =>
      rw [hpc] at hst hled htimer
      simp only [ch7ModExit] at hst
      split at hst
      case isTrue hidle =>
        cases hst
        have hfreed := IrqLine.handled_freeIrq m.light.pirLine
        exact ⟨htimer, fun _ => ⟨hidle, hfreed⟩, hled, h.strays⟩
      case isFalse => cases hst
  | setLow =>
      rw [hpc] at hst hled htimer hhandler
      cases hst
      refine ⟨htimer, hhandler, hled, ?_⟩
      show (m.light.led.gpioSetValue false).strays = 0
      rw [GpioLine.strays_gpioSetValue (hled rfl)]
      exact h.strays
  | clearLedOn =>
      rw [hpc] at hst hled htimer hhandler
      cases hst
      exact ⟨htimer, hhandler, hled, h.strays⟩
  | freeLed =>
      rw [hpc] at hst hled htimer hhandler
      cases hst
      exact ⟨htimer, hhandler, fun h => (by cases h), h.strays⟩
  | freePir =>
      rw [hpc] at hst hled htimer hhandler
      cases hst
      exact ⟨htimer, hhandler, fun h => (by cases h), h.strays⟩
  | returned =>
      rw [hpc] at hst
      cases hst

theorem Torn.step {hz : Nat} {m n : Module} {mv : Move} (h : Torn m)
    (hrearm : NotRearmed m mv) (hst : moduleStep hz m mv = some n) :
    Torn n := by
  cases mv with
  | event e =>
      simp only [moduleStep, Option.map_eq_some_iff] at hst
      obtain ⟨s, hs, hn⟩ := hst
      subst hn
      exact h.event hrearm hs
  | exit =>
      simp only [moduleStep, Option.map_eq_some_iff] at hst
      obtain ⟨⟨s, pc⟩, hs, hn⟩ := hst
      subst hn
      exact h.exit hs

/-! ## Re-armed -/

/-- After a detection that found the timer deleted, `ch7_mod_exit` can run to
its end with the timer pending. -/
theorem rearmed_outlives_exit {hz : Nat} {m n : Module} {mv : Move}
    (h : Torn m) (hrearm : ¬ NotRearmed m mv)
    (hst : moduleStep hz m mv = some n) :
    ∃ mvs q, run (moduleStep hz) n mvs = some q ∧ ¬ LeftQuiet q := by
  cases mv with
  | exit => exact absurd trivial hrearm
  | event e =>
      simp only [moduleStep, Option.map_eq_some_iff] at hst
      obtain ⟨s, hs, hn⟩ := hst
      cases step_step hs with
      | detect hpc =>
          have hdel : m.exitPc.timerDeleted = true := by
            simpa [NotRearmed] using hrearm
          -- the handler runs, so `free_irq` has not returned
          have hexit : m.exitPc = .freeIrq := by
            cases hm : m.exitPc with
            | freeIrq => rfl
            | loaded =>
                rw [hm] at hdel
                cases hdel
            | delTimer =>
                rw [hm] at hdel
                cases hdel
            | _ =>
                have hidle := (h.handler (by rw [hm]; rfl)).1
                rw [hpc] at hidle
                cases hidle
          rw [hexit] at hn
          subst hn
          refine ⟨[.event .handlerReturn, .exit, .exit, .exit, .exit, .exit],
            _, rfl, fun hquiet => ?_⟩
          have htimer := (hquiet.timer rfl).1
          cases htimer
      | _ => exact absurd trivial hrearm

/-! ## The result -/

/-- In a run in which no detection runs its locked section after
`del_timer_sync` has returned, the timer is quiet when `ch7_mod_exit` has
returned and no `gpio_set_value` meets a freed LED.  Where the next step is
such a detection, the run has a continuation that breaks this. -/
theorem leftQuiet_of_notRearmed {hz : Nat} {r : InitRets} {jiffies : Nat}
    {level : Bool} {s₀ : Ch7} {m : Module} {mvs : List Move}
    (hinit : ch7ModInit r (unloaded jiffies level) = (s₀, 0))
    (hrun : run (moduleStep hz) ⟨s₀, .loaded⟩ mvs = some m)
    (hrearm : Along (moduleStep hz) NotRearmed ⟨s₀, .loaded⟩ mvs) :
    Throughout (moduleStep hz) LeftQuiet ⟨s₀, .loaded⟩ mvs ∧
      ∀ mv n, ¬ NotRearmed m mv → moduleStep hz m mv = some n →
        ∃ mvs' q, run (moduleStep hz) n mvs' = some q ∧ ¬ LeftQuiet q := by
  have hstart := loaded_of_init hinit
  subst hstart
  have hinv : ∀ xs t, run (moduleStep hz) ⟨loaded jiffies, .loaded⟩ xs =
      some t → Along (moduleStep hz) NotRearmed ⟨loaded jiffies, .loaded⟩ xs →
      Torn t := by
    intro xs t hxs halong
    exact run_induct_along (fun _ _ _ h hC hst => Torn.step h hC hst)
      (loaded_torn jiffies) halong hxs
  constructor
  · intro xs ys t hsplit hxs
    rw [hsplit] at hrearm
    exact (hinv xs t hxs hrearm.of_append).leftQuiet
  · intro mv n hbreak hst
    exact rearmed_outlives_exit (hinv mvs m hrun hrearm) hbreak hst

/-- One detection, then the module is unloaded. -/
def unloadRun : List Move :=
  List.flatten
    [ [.event .interrupt, .event .detect, .event .handlerReturn]
    , List.replicate 7 .exit ]

theorem leftQuiet_of_notRearmed_unloadRun :
    ∃ m, run (moduleStep 100) ⟨loaded 5, .loaded⟩ unloadRun = some m ∧
      m.exitPc = .returned ∧ LeftQuiet m := by
  have hend : (run (moduleStep 100) ⟨loaded 5, .loaded⟩ unloadRun).map
      (fun m => m.exitPc) = some .returned := by
    decide +kernel
  obtain ⟨m, hrun, hpc⟩ := Option.map_eq_some_iff.mp hend
  have hinit : ch7ModInit goodRets (unloaded 5 true) = (loaded 5, 0) := by
    decide
  have hall := leftQuiet_of_notRearmed hinit hrun (by decide +kernel)
  exact ⟨m, hrun, hpc, hall.1 unloadRun [] m (List.append_nil _).symm hrun⟩

/-- A detection arrives between `del_timer_sync` and `free_irq`; ten seconds
after `ch7_mod_exit` has returned, the timer fires. -/
def rearmRun : List Move :=
  List.flatten
    [ [.exit, .exit]
    , [.event .interrupt, .event .detect, .event .handlerReturn]
    , List.replicate 5 .exit
    , List.replicate 1000 (.event .tick)
    , [.event .fire, .event .expire] ]

/-- The callback then drives the freed LED. -/
theorem rearmRun_stray :
    ∃ m, run (moduleStep 100) ⟨loaded 5, .loaded⟩ rearmRun = some m ∧
      m.exitPc = .returned ∧ ¬ m.light.ledTimer.Quiet ∧
      m.light.led.strays = 1 := by
  have hend : (run (moduleStep 100) ⟨loaded 5, .loaded⟩ rearmRun).map
      (fun m => (m.exitPc, decide m.light.ledTimer.Quiet,
        m.light.led.strays)) = some (.returned, false, 1) := by
    decide +kernel
  obtain ⟨m, hrun, hm⟩ := Option.map_eq_some_iff.mp hend
  simp only [Prod.mk.injEq, decide_eq_false_iff_not] at hm
  exact ⟨m, hrun, hm⟩

end EmbeddedSystem.Labs.Ch7Light
