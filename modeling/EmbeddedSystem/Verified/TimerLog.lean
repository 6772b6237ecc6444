import EmbeddedSystem.Verified.SelfTimer

/-!
# The rounds of a timer that arms itself

A driver of `SelfTimer` together with a log of its rounds: when a callback
executed its first statement, and what is noted about that.  The log is read
by no code.

Two rounds are a delay apart, whatever else happens (`Spaced`).  How long the
last round is ago depends on the machine.  If an overdue timer fires within
`late` ticks and a callback takes at most `busy` (`Prompt`), then it is at most
the delay and these times, as long as the exit function has not deleted the
timer (`Recent.bound`).
-/

set_option autoImplicit false

namespace EmbeddedSystem.Verified.TimerLog

open EmbeddedSystem.Verified.Transition
open EmbeddedSystem.Verified.SelfTimer

/-- `since` is when the last callback was called, or the driver loaded. -/
structure Watched (G C X N : Type) where
  state : SelfTimer.State G C X
  since : Nat
  log : List (Nat × N)
deriving DecidableEq, Repr

variable {G C X I N : Type}

/-- A driver that has just been loaded. -/
def load (s : SelfTimer.State G C X) : Watched G C X N := ⟨s, s.jiffies, []⟩

/-- What a move adds to the log. -/
def entry [DecidableEq C] (p : Program G C X I) (note : G → I → N)
    (s : SelfTimer.State G C X) : Move I → List (Nat × N)
  | .callback i =>
      if s.callback = some (.body p.first) then
        [(s.jiffies, note s.shared i)]
      else []
  | _ => []

/-- When the callback that is in progress after a move was called. -/
def sinceAfter (w : Watched G C X N) : Move I → Nat
  | .fire => w.state.jiffies
  | _ => w.since

def watch [DecidableEq C] (p : Program G C X I) (note : G → I → N)
    (w : Watched G C X N) (mv : Move I) : Option (Watched G C X N) :=
  (SelfTimer.step p w.state mv).map fun t =>
    ⟨t, sinceAfter w mv, w.log ++ entry p note w.state mv⟩

/-- A callback does not come back to its first statement, and nothing changes
the delay. -/
structure Periodic (p : Program G C X I) : Prop where
  onward : ∀ g c i, (p.body g c i).2 ≠ some p.first
  body : ∀ g c i, p.delayJiffies (p.body g c i).1 = p.delayJiffies g
  exit : ∀ g x, p.delayJiffies (p.exit g x).1 = p.delayJiffies g

/-! ## What a move adds -/

inductive Watch (p : Program G C X I) (note : G → I → N)
    (w : Watched G C X N) (mv : Move I) : Watched G C X N → Prop where
  | round (i : I) (hmv : mv = .callback i)
      (hc : w.state.callback = some (.body p.first)) :
      Watch p note w mv
        ⟨{ w.state with
            shared := (p.body w.state.shared p.first i).1
            callback := some (.after (p.body w.state.shared p.first i).2) },
          w.since, w.log ++ [(w.state.jiffies, note w.state.shared i)]⟩
  | quiet (t : SelfTimer.State G C X)
      (hst : SelfTimer.step p w.state mv = some t)
      (hnot : ∀ i, mv = .callback i →
        w.state.callback ≠ some (.body p.first)) :
      Watch p note w mv ⟨t, sinceAfter w mv, w.log⟩

theorem watch_cases [DecidableEq C] {p : Program G C X I}
    {note : G → I → N} {w w' : Watched G C X N} {mv : Move I}
    (h : watch p note w mv = some w') :
    Watch p note w mv w' := by
  obtain ⟨t, ht, rfl⟩ := Option.map_eq_some_iff.mp h
  have hst := step_step ht
  cases mv with
  | callback i =>
      by_cases hc : w.state.callback = some (.body p.first)
      · have hentry : entry p note w.state (.callback i) =
            [(w.state.jiffies, note w.state.shared i)] := by
          exact if_pos hc
        rw [hentry]
        cases hst with
        | body c _ hbody =>
            rw [hc, Option.some.injEq, CallbackPc.body.injEq] at hbody
            subst hbody
            exact .round i rfl hc
        | modTimer _ hpc =>
            rw [hc] at hpc
            cases hpc
        | leave _ hpc =>
            rw [hc] at hpc
            cases hpc
      · have hentry : entry p note w.state (.callback i) = [] := by
          exact if_neg hc
        rw [hentry, List.append_nil]
        exact .quiet t ht fun _ _ => hc
  | tick =>
      rw [show entry p note w.state .tick = [] from rfl, List.append_nil]
      exact .quiet t ht fun _ h => by cases h
  | fire =>
      rw [show entry p note w.state .fire = [] from rfl, List.append_nil]
      exact .quiet t ht fun _ h => by cases h
  | exit =>
      rw [show entry p note w.state .exit = [] from rfl, List.append_nil]
      exact .quiet t ht fun _ h => by cases h

/-- The log is beside the driver, not part of it. -/
theorem watch_step [DecidableEq C] {p : Program G C X I}
    {note : G → I → N} {w w' : Watched G C X N} {mv : Move I}
    (h : watch p note w mv = some w') :
    Step p w.state mv w'.state := by
  obtain ⟨t, ht, rfl⟩ := Option.map_eq_some_iff.mp h
  exact step_step ht

/-- Behind a statement of its own, a callback is not at the first one. -/
theorem Periodic.after_ne {p : Program G C X I} (h : Periodic p) (g : G)
    (c : C) (i : I) :
    (some (CallbackPc.after (p.body g c i).2) : Option (CallbackPc C)) ≠
      some (.body p.first) := by
  have hon := h.onward g c i
  intro heq
  cases hnext : (p.body g c i).2 with
  | none =>
      rw [hnext] at heq
      cases heq
  | some c' =>
      rw [hnext] at heq hon
      cases heq
      exact hon rfl

theorem Periodic.delay_step {p : Program G C X I} (h : Periodic p)
    {s t : SelfTimer.State G C X} {mv : Move I} (hst : Step p s mv t) :
    p.delayJiffies t.shared = p.delayJiffies s.shared := by
  cases hst with
  | body c i hc => exact h.body s.shared c i
  | rest x hpc => exact h.exit s.shared x
  | _ => rfl

/-! ## Two rounds are a delay apart -/

structure Spaced (p : Program G C X I) (d : Nat) (w : Watched G C X N) :
    Prop where
  delay : p.delayJiffies w.state.shared = d
  spaced : w.log.Pairwise fun a b => a.1 + d ≤ b.1
  past : ∀ a ∈ w.log, a.1 ≤ w.state.jiffies
  pending : ∀ e, w.state.expires = some e → ∀ a ∈ w.log, a.1 + d ≤ e
  unarmed : w.state.rearming = true → w.state.expires = none
  ready : w.state.callback = some (.body p.first) →
    ∀ a ∈ w.log, a.1 + d ≤ w.state.jiffies

theorem load_spaced (p : Program G C X I) {s : SelfTimer.State G C X}
    (hidle : s.callback = none) :
    Spaced p (p.delayJiffies s.shared) (load s : Watched G C X N) :=
  { delay := rfl
    spaced := List.Pairwise.nil
    past := fun _ ha => by cases ha
    pending := fun _ _ _ ha => by cases ha
    unarmed := fun h => by
      simp only [load, SelfTimer.State.rearming, hidle] at h
      cases h
    ready := fun _ _ ha => by cases ha }

/-- A move that adds no round. -/
theorem Spaced.quiet {p : Program G C X I} {d : Nat} {w : Watched G C X N}
    (hp : Periodic p) (h : Spaced p d w) {t : SelfTimer.State G C X}
    {mv : Move I} (hst : SelfTimer.step p w.state mv = some t) (since : Nat) :
    Spaced p d ⟨t, since, w.log⟩ := by
  have hstep := step_step hst
  have hdelay : p.delayJiffies t.shared = d :=
    (hp.delay_step hstep).trans h.delay
  cases hstep with
  | tick =>
      refine ⟨hdelay, h.spaced, fun a ha => ?_, h.pending, h.unarmed,
        fun hc a ha => ?_⟩
      · exact Nat.le_succ_of_le (h.past a ha)
      · exact Nat.le_succ_of_le (h.ready hc a ha)
  | fire e he hidle =>
      refine ⟨hdelay, h.spaced, h.past, fun _ h => (by cases h),
        fun _ => rfl, fun _ a ha => ?_⟩
      have hdue : e ≤ w.state.jiffies := by
        simp only [SelfTimer.step, SelfTimer.fire, he, hidle] at hst
        split at hst
        case isTrue hle => exact hle
        case isFalse => cases hst
      exact Nat.le_trans (h.pending e he a ha) hdue
  | body c i hc =>
      have hnone : w.state.expires = none := by
        apply h.unarmed
        rw [SelfTimer.State.rearming, hc]
        rfl
      refine ⟨hdelay, h.spaced, h.past, h.pending, fun _ => hnone,
        fun hfirst => ?_⟩
      exact absurd hfirst (hp.after_ne _ _ _)
  | modTimer i hc =>
      refine ⟨hdelay, h.spaced, h.past, fun e he a ha => ?_,
        fun h => (by cases h), fun h => (by cases h)⟩
      rw [Option.some.injEq, h.delay] at he
      rw [← he]
      exact Nat.add_le_add_right (h.past a ha) d
  | leave i hc =>
      exact ⟨hdelay, h.spaced, h.past, h.pending, fun h => (by cases h),
        fun h => by cases h⟩
  | delTimer hpc =>
      exact ⟨hdelay, h.spaced, h.past, fun _ h => (by cases h),
        fun _ => rfl, h.ready⟩
  | _ => exact ⟨hdelay, h.spaced, h.past, h.pending, h.unarmed, h.ready⟩

theorem Spaced.step [DecidableEq C] {p : Program G C X I} {note : G → I → N}
    {d : Nat} (hp : Periodic p) {w w' : Watched G C X N} {mv : Move I}
    (h : Spaced p d w) (hst : watch p note w mv = some w') :
    Spaced p d w' := by
  cases watch_cases hst with
  | quiet t ht hnot => exact h.quiet hp ht _
  | round i hmv hc =>
      have hready := h.ready hc
      have hnone : w.state.expires = none := by
        apply h.unarmed
        rw [SelfTimer.State.rearming, hc]
        rfl
      refine ⟨(hp.body _ _ _).trans h.delay, ?_, ?_, ?_, fun _ => hnone,
        fun hfirst => ?_⟩
      · refine List.pairwise_append.mpr
          ⟨h.spaced, List.pairwise_singleton _ _, fun a ha b hb => ?_⟩
        rw [List.mem_singleton.mp hb]
        exact hready a ha
      · intro a ha
        rcases List.mem_append.mp ha with hold | hnew
        · exact h.past a hold
        · have hnow := List.mem_singleton.mp hnew
          exact Nat.le_of_eq (congrArg Prod.fst hnow)
      · intro e he
        rw [show w.state.expires = some e from he] at hnone
        cases hnone
      · exact absurd hfirst (hp.after_ne _ _ _)

/-! ## The last round is not long ago -/

/-- When the last round began, or the driver was loaded. -/
def latest (loaded : Nat) (log : List (Nat × N)) : Nat :=
  (log.getLast?.map (·.1)).getD loaded

/-- The clock does not advance past an overdue timer by more than `late`
ticks, nor past a callback in progress by more than `busy`. -/
def Prompt (late busy : Nat) (w : Watched G C X N) : Move I → Prop
  | .tick =>
      match w.state.callback with
      | some _ => w.state.jiffies < w.since + busy
      | none => ∀ e, w.state.expires = some e → w.state.jiffies < e + late
  | _ => True

theorem prompt_tick {late busy : Nat} {w : Watched G C X N} :
    (w.state.callback.isSome = true → w.state.jiffies < w.since + busy) ∧
        (w.state.callback.isNone = true → ∀ e ∈ w.state.expires,
          w.state.jiffies < e + late) ↔
      Prompt late busy w (.tick : Move I) := by
  unfold Prompt
  cases w.state.callback <;> simp

instance (late busy : Nat) (w : Watched G C X N) :
    ∀ mv : Move I, Decidable (Prompt late busy w mv)
  | .tick => decidable_of_iff _ prompt_tick
  | .fire => isTrue trivial
  | .callback _ => isTrue trivial
  | .exit => isTrue trivial

/-- The last round is recent: as long as the timer lives, everything it still
waits for is near. -/
structure Recent (p : Program G C X I) (d late busy loaded : Nat)
    (w : Watched G C X N) : Prop where
  delay : p.delayJiffies w.state.shared = d
  since : w.since ≤ w.state.jiffies
  called : w.state.callback = some (.body p.first) →
    w.since ≤ latest loaded w.log + busy + d + late
  working : w.state.callback ≠ some (.body p.first) →
    w.since ≤ latest loaded w.log
  brief : w.state.callback ≠ none → w.state.jiffies ≤ w.since + busy
  soon : ∀ e, w.state.expires = some e → e ≤ latest loaded w.log + busy + d
  due : w.state.callback = none → ∀ e, w.state.expires = some e →
    w.state.jiffies ≤ e + late ∨ w.state.jiffies ≤ w.since + busy

theorem load_recent (p : Program G C X I) {s : SelfTimer.State G C X}
    (late busy : Nat) (hidle : s.callback = none)
    (harmed : s.expires = some (s.jiffies + p.delayJiffies s.shared)) :
    Recent p (p.delayJiffies s.shared) late busy s.jiffies
      (load s : Watched G C X N) := by
  have hlatest : latest s.jiffies (load s : Watched G C X N).log =
    s.jiffies := rfl
  refine ⟨rfl, Nat.le_refl _, fun hc => ?_, fun _ => Nat.le_refl _,
    fun hc => ?_, fun e he => ?_, fun _ e he => ?_⟩
  · rw [show (load s : Watched G C X N).state.callback = none from hidle] at hc
    cases hc
  · exact absurd hidle hc
  · rw [show (load s : Watched G C X N).state.expires = _ from harmed,
      Option.some.injEq] at he
    rw [hlatest]
    omega
  · exact Or.inr (Nat.le_add_right _ _)

theorem latest_concat (loaded : Nat) (log : List (Nat × N)) (a : Nat × N) :
    latest loaded (log ++ [a]) = a.1 := by
  unfold latest
  rw [List.getLast?_concat]
  rfl

/-- A move that adds no round. -/
theorem Recent.quiet {p : Program G C X I} {d late busy loaded : Nat}
    {w : Watched G C X N} (hp : Periodic p) (h : Recent p d late busy loaded w)
    {t : SelfTimer.State G C X} {mv : Move I}
    (hprompt : Prompt late busy w mv)
    (hst : SelfTimer.step p w.state mv = some t)
    (hnot : ∀ i, mv = .callback i →
      w.state.callback ≠ some (.body p.first)) :
    Recent p d late busy loaded ⟨t, sinceAfter w mv, w.log⟩ := by
  have hstep := step_step hst
  have hdelay : p.delayJiffies t.shared = d :=
    (hp.delay_step hstep).trans h.delay
  cases hstep with
  | tick =>
      refine ⟨hdelay, Nat.le_succ_of_le h.since, h.called, h.working,
        fun hc => ?_, h.soon, fun hc e he => ?_⟩
      · cases hcb : w.state.callback with
        | none => exact absurd hcb hc
        | some c =>
            simp only [Prompt, hcb] at hprompt
            exact hprompt
      · simp only [Prompt, show w.state.callback = none from hc] at hprompt
        exact Or.inl (hprompt e he)
  | fire e he hidle =>
      have hsince := h.working (by rw [hidle]; exact fun h => by cases h)
      have hsoon := h.soon e he
      refine ⟨hdelay, Nat.le_refl _, fun _ => ?_, fun hne => absurd rfl hne,
        fun _ => ?_, fun _ h => (by cases h), fun h => (by cases h)⟩
      · show w.state.jiffies ≤ latest loaded w.log + busy + d + late
        rcases h.due hidle e he with hdue | hdue
        · omega
        · omega
      · exact Nat.le_add_right _ _
  | body c i hc =>
      have hne := hnot i rfl
      refine ⟨hdelay, h.since, fun hfirst => ?_, fun _ => h.working hne,
        fun _ => h.brief (by rw [hc]; exact fun h => by cases h), h.soon,
        fun h => (by cases h)⟩
      exact absurd hfirst (hp.after_ne _ _ _)
  | modTimer i hc =>
      have hne := hnot i rfl
      have hsince := h.working hne
      have hbrief := h.brief (by rw [hc]; exact fun h => by cases h)
      refine ⟨hdelay, h.since, fun h => (by cases h), fun _ => hsince,
        fun _ => hbrief, fun e he => ?_, fun h => (by cases h)⟩
      rw [Option.some.injEq, h.delay] at he
      show e ≤ latest loaded w.log + busy + d
      omega
  | leave i hc =>
      have hne := hnot i rfl
      have hbrief := h.brief (by rw [hc]; exact fun h => by cases h)
      exact ⟨hdelay, h.since, fun h => (by cases h), fun _ => h.working hne,
        fun hc => absurd rfl hc, h.soon, fun _ _ _ => Or.inr hbrief⟩
  | delTimer hpc =>
      exact ⟨hdelay, h.since, h.called, h.working, h.brief,
        fun _ h => (by cases h), fun _ _ h => (by cases h)⟩
  | _ =>
      exact ⟨hdelay, h.since, h.called, h.working, h.brief, h.soon, h.due⟩

theorem Recent.step [DecidableEq C] {p : Program G C X I} {note : G → I → N}
    {d late busy loaded : Nat} (hp : Periodic p) {w w' : Watched G C X N}
    {mv : Move I} (h : Recent p d late busy loaded w)
    (hunarmed : w.state.rearming = true → w.state.expires = none)
    (hprompt : Prompt late busy w mv) (hst : watch p note w mv = some w') :
    Recent p d late busy loaded w' := by
  cases watch_cases hst with
  | quiet t ht hnot => exact h.quiet hp hprompt ht hnot
  | round i hmv hc =>
      have hbrief := h.brief (by rw [hc]; exact fun h => by cases h)
      have hnone : w.state.expires = none := by
        apply hunarmed
        rw [SelfTimer.State.rearming, hc]
        rfl
      refine ⟨(hp.body _ _ _).trans h.delay, h.since, fun hfirst => ?_,
        fun _ => ?_, fun _ => hbrief, fun e he => ?_, fun h => (by cases h)⟩
      · exact absurd hfirst (hp.after_ne _ _ _)
      · rw [latest_concat]
        exact h.since
      · rw [show w.state.expires = some e from he] at hnone
        cases hnone

/-! ## Both together -/

/-- How old the last round can be. -/
theorem Recent.bound {p : Program G C X I} {d late busy loaded : Nat}
    {w : Watched G C X N} (h : Recent p d late busy loaded w)
    (halive : w.state.alive = true) :
    w.state.jiffies ≤ latest loaded w.log + (d + late + 2 * busy) := by
  cases hc : w.state.callback with
  | none =>
      have hsince := h.working (by rw [hc]; exact fun h => by cases h)
      have hsome : w.state.expires.isSome = true := by
        simpa [SelfTimer.State.alive, SelfTimer.State.rearming, hc] using
          halive
      obtain ⟨e, he⟩ := Option.isSome_iff_exists.mp hsome
      have hsoon := h.soon e he
      rcases h.due hc e he with hdue | hdue
      · omega
      · omega
  | some c =>
      have hbrief := h.brief (by rw [hc]; exact fun h => by cases h)
      by_cases hfirst : w.state.callback = some (.body p.first)
      · have := h.called hfirst
        omega
      · have := h.working hfirst
        omega

/-- Until the exit function calls `del_timer`, the timer lives. -/
theorem alive_step_of_loaded {p : Program G C X I}
    {s t : SelfTimer.State G C X} {mv : Move I} (hst : Step p s mv t)
    (h : s.exitPc.deleted = false → s.alive = true) :
    t.exitPc.deleted = false → t.alive = true := by
  intro hnot
  cases hst with
  | delTimer hpc =>
      rw [deleted_after] at hnot
      cases hnot
  | call hpc => exact h (by rw [hpc]; rfl)
  | rest x hpc =>
      rw [deleted_after] at hnot
      cases hnot
  | ret hpc => cases hnot
  | tick => exact h hnot
  | fire e he hidle =>
      simp [SelfTimer.State.alive, SelfTimer.State.rearming,
        CallbackPc.rearms]
  | body c i hc =>
      simp [SelfTimer.State.alive, SelfTimer.State.rearming]
  | modTimer i hc => rfl
  | leave i hc =>
      have := h hnot
      simpa [SelfTimer.State.alive, SelfTimer.State.rearming, hc,
        CallbackPc.rearms] using this

/-- The rounds of a driver that was loaded with its timer armed. -/
theorem rounds [DecidableEq C] {p : Program G C X I} (hp : Periodic p)
    {note : G → I → N} {s : SelfTimer.State G C X}
    (hidle : s.callback = none)
    (harmed : s.expires = some (s.jiffies + p.delayJiffies s.shared))
    {w : Watched G C X N} {mvs : List (Move I)}
    (hrun : run (watch p note) (load s) mvs = some w) :
    (w.log.Pairwise fun a b => a.1 + p.delayJiffies s.shared ≤ b.1) ∧
      ∀ late busy, Along (watch p note) (Prompt late busy) (load s) mvs →
        w.state.exitPc.deleted = false →
        w.state.jiffies ≤ latest s.jiffies w.log +
          (p.delayJiffies s.shared + late + 2 * busy) := by
  have hloaded : (load s : Watched G C X N).state.exitPc.deleted = false →
      (load s : Watched G C X N).state.alive = true := by
    intro _
    show s.alive = true
    rw [SelfTimer.State.alive, harmed]
    rfl
  constructor
  · exact (run_induct (P := fun w => Spaced p _ w)
      (fun _ _ _ h hst => Spaced.step hp h hst)
      (load_spaced p hidle) hrun).spaced
  · intro late busy hprompt hnot
    have hinv := run_induct_along
      (P := fun w : Watched G C X N =>
        Spaced p (p.delayJiffies s.shared) w ∧
        Recent p (p.delayJiffies s.shared) late busy s.jiffies w ∧
        (w.state.exitPc.deleted = false → w.state.alive = true))
      (fun w mv w' h hC hst => ⟨h.1.step hp hst,
        h.2.1.step hp h.1.unarmed hC hst,
        alive_step_of_loaded (watch_step hst) h.2.2⟩)
      ⟨load_spaced p hidle, load_recent p late busy hidle harmed, hloaded⟩
      hprompt hrun
    exact hinv.2.1.bound (hinv.2.2 hnot)

end EmbeddedSystem.Verified.TimerLog
