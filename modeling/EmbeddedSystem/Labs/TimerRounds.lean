import EmbeddedSystem.Labs.TimerUnload
import EmbeddedSystem.Verified.TimerLog

/-!
# The rounds of `ch6` and `simple_timer`

What the two modules of `TimerUnload` are for while they are loaded: `ch6`
makes its LED follow the switch (`led_follows_switch`), and `simple_timer`
prints the numbers from 100 on, one every two seconds (`prints_numbers`).
-/

set_option autoImplicit false

namespace EmbeddedSystem.Labs.TimerUnload

open EmbeddedSystem.Verified
open EmbeddedSystem.Verified.Transition
open EmbeddedSystem.Verified.SelfTimer
open EmbeddedSystem.Verified.TimerLog

/-! ## `ch6` -/

/-- `ch6` with the levels it has read. -/
abbrev Ch6Watched := Watched Ch6 Ch6TimerFunc Ch6Exit Int

/-- A round of `ch6` notes what the switch reads. -/
def ch6Watch : Ch6Watched → SelfTimer.Move Int → Option Ch6Watched :=
  watch ch6 fun _ level => level

theorem ch6_periodic : Periodic ch6 := by
  refine ⟨fun g c i => ?_, fun g c i => ?_, fun g x => ?_⟩
  · cases c <;> exact fun h => by cases h
  · cases c <;> rfl
  · cases x <;> rfl

/-- The last level was high. -/
def lastHigh (log : List (Nat × Int)) : Bool :=
  (log.getLast?.map fun a => a.2 == 1).getD false

/-- The callback has read the switch and not set the LED yet. -/
def setting (s : Ch6State) : Bool :=
  match s.callback with
  | some (.body (.setLed _)) => true
  | _ => false

/-- `ch6_exit` has not switched the LED off yet. -/
def undriven : ExitPc Ch6Exit → Bool
  | .loaded => true
  | .delTimer => true
  | .rest .setLow => true
  | _ => false

/-- The LED shows the last level. -/
structure Shows (w : Ch6Watched) : Prop where
  read : ∀ sw, w.state.callback = some (.body (.setLed sw)) →
    lastHigh w.log = (sw == 1)
  led : setting w.state = false → undriven w.state.exitPc = true →
    w.state.shared.led.level = lastHigh w.log

theorem lastHigh_concat (log : List (Nat × Int)) (a : Nat × Int) :
    lastHigh (log ++ [a]) = (a.2 == 1) := by
  unfold lastHigh
  rw [List.getLast?_concat]
  rfl

theorem Shows.step {w w' : Ch6Watched} {mv : SelfTimer.Move Int}
    (h : Shows w) (hst : ch6Watch w mv = some w') : Shows w' := by
  cases watch_cases hst with
  | round i hmv hc =>
      refine ⟨fun sw hsw => ?_, fun hset => ?_⟩
      · cases hsw
        exact lastHigh_concat _ _
      · cases hset
  | quiet t ht hnot =>
      cases step_step ht with
      | tick => exact ⟨h.read, h.led⟩
      | fire e he hidle =>
          refine ⟨fun sw hsw => (by cases hsw), fun _ => h.led ?_⟩
          rw [setting, hidle]
      | body c i hc =>
          cases c with
          | getValue => exact absurd hc (hnot i rfl)
          | setLed sw =>
              refine ⟨fun sw hsw => (by cases hsw), fun _ _ => ?_⟩
              exact (h.read sw hc).symm
      | modTimer i hc =>
          refine ⟨fun sw hsw => (by cases hsw), fun _ => h.led ?_⟩
          rw [setting, hc]
      | leave i hc =>
          refine ⟨fun sw hsw => (by cases hsw), fun _ => h.led ?_⟩
          rw [setting, hc]
      | call hpc =>
          exact ⟨h.read, fun hset _ => h.led hset (by rw [hpc]; rfl)⟩
      | delTimer hpc =>
          exact ⟨h.read, fun hset _ => h.led hset (by rw [hpc]; rfl)⟩
      | rest x hpc =>
          refine ⟨h.read, fun _ hun => ?_⟩
          cases x <;> cases hun
      | ret hpc => exact ⟨h.read, fun _ hun => by cases hun⟩

theorem ch6Init_armed {hz jiffies : Nat} {level : Bool}
    {ledRet switchRet : Int} {s : Ch6State}
    (h : ch6Init hz ledRet switchRet (ch6Unloaded jiffies level) = (s, 0)) :
    s = { shared :=
            ⟨((GpioLine.unused level).gpioRequest.gpioDirectionOutput false),
              GpioInput.unused.gpioRequest, msecsToJiffies hz 500⟩
          jiffies := jiffies
          expires := some (jiffies + msecsToJiffies hz 500)
          callback := none
          exitPc := .loaded } := by
  unfold ch6Init at h
  dsimp only at h
  split at h
  case isTrue hne =>
    rw [Prod.mk.injEq] at h
    exact absurd h.2 hne
  case isFalse =>
  split at h
  case isTrue hne =>
    rw [Prod.mk.injEq] at h
    exact absurd h.2 hne
  case isFalse =>
    rw [Prod.mk.injEq] at h
    exact h.1.symm

/-- `ch6` reads the switch at most every 500 ms, and between the reading and
the next one the LED is on exactly if it read 1; before the first one it is
off.  On a machine that runs an overdue timer within `late` ticks, and a
callback in at most `busy`, the reading is at most 500 ms and these times
old, until `ch6_exit` deletes the timer. -/
theorem led_follows_switch {hz jiffies : Nat} {level : Bool}
    {ledRet switchRet : Int} {s₀ : Ch6State}
    (hinit : ch6Init hz ledRet switchRet (ch6Unloaded jiffies level) = (s₀, 0))
    {w : Ch6Watched} {mvs : List (SelfTimer.Move Int)}
    (hrun : run ch6Watch (load s₀) mvs = some w) :
    (w.log.Pairwise fun a b => a.1 + msecsToJiffies hz 500 ≤ b.1) ∧
    (setting w.state = false → undriven w.state.exitPc = true →
      w.state.shared.led.level = lastHigh w.log) ∧
    ∀ late busy, Along ch6Watch (Prompt late busy) (load s₀) mvs →
      w.state.exitPc.deleted = false →
      w.state.jiffies ≤ latest jiffies w.log +
        (msecsToJiffies hz 500 + late + 2 * busy) := by
  have hs := ch6Init_armed hinit
  have hshows : Shows (load s₀) := by
    rw [hs]
    exact ⟨fun sw hsw => (by cases hsw), fun _ _ => rfl⟩
  have hidle : s₀.callback = none := by rw [hs]
  have harmed : s₀.expires = some (s₀.jiffies + ch6.delayJiffies s₀.shared) := by
    rw [hs]
    rfl
  have hrounds := rounds ch6_periodic hidle harmed hrun
  rw [show ch6.delayJiffies s₀.shared = msecsToJiffies hz 500 by rw [hs]; rfl,
    show s₀.jiffies = jiffies by rw [hs]] at hrounds
  refine ⟨hrounds.1, ?_, hrounds.2⟩
  exact (run_induct (fun _ _ _ h hst => Shows.step h hst) hshows hrun).led

/-- The switch reads 1 in the first round and 0 in the second.  The timer
fires a tick late, and the callback takes a tick; `HZ` is 100. -/
def releasedRun : List (SelfTimer.Move Int) :=
  List.flatten
    [ List.replicate 51 .tick
    , [.fire, .callback 1, .callback 1, .tick, .callback 1, .callback 1]
    , List.replicate 50 .tick
    , [.fire, .callback 0, .callback 0, .callback 0, .callback 0]
    , List.replicate 30 .tick ]

theorem led_follows_switch_releasedRun :
    ∃ w, run ch6Watch (load ch6Loaded) releasedRun = some w ∧
      w.log = [(51, 1), (102, 0)] ∧
      w.state.shared.led.level = false ∧
      w.state.jiffies ≤ latest 0 w.log + (50 + 1 + 2) := by
  have hinit : ch6Init 100 0 0 (ch6Unloaded 0 true) = (ch6Loaded, 0) := by
    decide
  have hend : (run ch6Watch (load ch6Loaded) releasedRun).map
      (fun w => (w.log, setting w.state, w.state.exitPc)) =
        some ([(51, 1), (102, 0)], false, .loaded) := by
    decide +kernel
  obtain ⟨w, hrun, hw⟩ := Option.map_eq_some_iff.mp hend
  simp only [Prod.mk.injEq] at hw
  obtain ⟨hlog, hset, hpc⟩ := hw
  obtain ⟨-, hled, hrecent⟩ := led_follows_switch hinit hrun
  refine ⟨w, hrun, hlog, ?_, ?_⟩
  · rw [hled hset (by rw [hpc]; rfl), hlog]
    rfl
  · exact hrecent 1 1 (by decide +kernel) (by rw [hpc]; rfl)

/-! ## `simple_timer` -/

/-- `simple_timer` with the numbers it has printed. -/
abbrev TimerWatched := Watched SimpleTimer MyTimerFunc Empty (BitVec 32)

/-- A round of `simple_timer` notes what it prints. -/
def timerWatch : TimerWatched → SelfTimer.Move Unit → Option TimerWatched :=
  watch simpleTimer fun g _ => g.data

theorem simpleTimer_periodic : Periodic simpleTimer := by
  refine ⟨fun g c i => ?_, fun g c i => ?_, fun g x => ?_⟩
  · cases c <;> exact fun h => by cases h
  · cases c <;> rfl
  · cases x

/-- `n` numbers from 100 on. -/
def numbers (n : Nat) : List (BitVec 32) :=
  (List.range n).map fun k => 100 + BitVec.ofNat 32 k

/-- The number to print next, or, in a callback that has printed it, the one
printed last. -/
structure Counts (w : TimerWatched) : Prop where
  printed : w.log.map (·.2) = numbers w.log.length
  before : w.state.callback = some (.body .increment) →
    w.state.shared.data + 1 = 100 + BitVec.ofNat 32 w.log.length
  data : w.state.callback ≠ some (.body .increment) →
    w.state.shared.data = 100 + BitVec.ofNat 32 w.log.length

theorem numbers_succ (n : Nat) :
    numbers (n + 1) = numbers n ++ [100 + BitVec.ofNat 32 n] := by
  unfold numbers
  rw [List.range_succ, List.map_append]
  rfl

theorem Counts.step {w w' : TimerWatched} {mv : SelfTimer.Move Unit}
    (h : Counts w) (hst : timerWatch w mv = some w') : Counts w' := by
  cases watch_cases hst with
  | round i hmv hc =>
      have hdata := h.data (by rw [hc]; exact fun h => by cases h)
      refine ⟨?_, fun _ => ?_, fun hne => absurd rfl hne⟩
      · rw [List.map_append, h.printed, List.length_append,
          List.length_singleton, numbers_succ, ← hdata]
        rfl
      · show w.state.shared.data + 1 = _
        rw [hdata, List.length_append, List.length_singleton,
          BitVec.ofNat_add, BitVec.add_assoc]
        rfl
  | quiet t ht hnot =>
      cases step_step ht with
      | fire e he hidle =>
          refine ⟨h.printed, fun hc => (by cases hc), fun _ => h.data ?_⟩
          rw [hidle]
          exact fun h => by cases h
      | body c i hc =>
          cases c with
          | print => exact absurd hc (hnot i rfl)
          | increment =>
              exact ⟨h.printed, fun hc => (by cases hc), fun _ => h.before hc⟩
      | modTimer i hc =>
          refine ⟨h.printed, fun hc => (by cases hc), fun _ => h.data ?_⟩
          rw [hc]
          exact fun h => by cases h
      | leave i hc =>
          refine ⟨h.printed, fun hc => (by cases hc), fun _ => h.data ?_⟩
          rw [hc]
          exact fun h => by cases h
      | rest x hpc => cases x
      | _ => exact ⟨h.printed, h.before, h.data⟩

/-- The lines of `simple_timer` show the numbers from 100 on, one after
another, as an `int` counts; two of them are at least 2 s apart, and on a
machine as in `led_follows_switch` the last one is at most 2 s and these times
old, until `simple_timer_exit` deletes the timer. -/
theorem prints_numbers {hz jiffies : Nat} {w : TimerWatched}
    {mvs : List (SelfTimer.Move Unit)}
    (hrun : run timerWatch (load (simpleTimerInit hz jiffies)) mvs = some w) :
    w.log.map (·.2) = numbers w.log.length ∧
    (w.log.Pairwise fun a b => a.1 + msecsToJiffies hz 2000 ≤ b.1) ∧
    ∀ late busy, Along timerWatch (Prompt late busy)
        (load (simpleTimerInit hz jiffies)) mvs →
      w.state.exitPc.deleted = false →
      w.state.jiffies ≤ latest jiffies w.log +
        (msecsToJiffies hz 2000 + late + 2 * busy) := by
  have hidle : (simpleTimerInit hz jiffies).callback = none := rfl
  have harmed : (simpleTimerInit hz jiffies).expires =
      some ((simpleTimerInit hz jiffies).jiffies +
        simpleTimer.delayJiffies (simpleTimerInit hz jiffies).shared) := rfl
  have hrounds := rounds simpleTimer_periodic hidle harmed hrun
  have hcounts : Counts (load (simpleTimerInit hz jiffies)) :=
    ⟨rfl, fun hc => (by cases hc), fun _ => rfl⟩
  refine ⟨?_, hrounds.1, hrounds.2⟩
  exact (run_induct (fun _ _ _ h hst => Counts.step h hst) hcounts
    hrun).printed

/-- Two rounds; the first callback is a tick late and takes a tick.  `HZ` is
1. -/
def twoRounds : List (SelfTimer.Move Unit) :=
  [ .tick, .tick, .tick, .fire, .callback (), .callback (), .tick
  , .callback (), .callback (), .tick, .tick, .fire, .callback ()
  , .callback (), .callback (), .callback (), .tick ]

theorem prints_numbers_twoRounds :
    ∃ w, run timerWatch (load (simpleTimerInit 1 0)) twoRounds = some w ∧
      w.log.map (·.2) = [100, 101] ∧
      w.state.jiffies ≤ latest 0 w.log + (2 + 1 + 2) := by
  have hend : (run timerWatch (load (simpleTimerInit 1 0)) twoRounds).map
      (fun w => (w.log.length, w.state.exitPc)) = some (2, .loaded) := by
    decide +kernel
  obtain ⟨w, hrun, hw⟩ := Option.map_eq_some_iff.mp hend
  obtain ⟨hlen, hpc⟩ := Prod.mk.inj hw
  obtain ⟨hprinted, -, hrecent⟩ := prints_numbers hrun
  refine ⟨w, hrun, ?_, ?_⟩
  · rw [hprinted, hlen]
    rfl
  · exact hrecent 1 1 (by decide +kernel) (by rw [hpc]; rfl)

end EmbeddedSystem.Labs.TimerUnload
