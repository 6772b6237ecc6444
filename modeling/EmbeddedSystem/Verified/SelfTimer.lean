import EmbeddedSystem.Verified.Transition

/-!
# Timers that arm themselves

A driver with one timer, whose callback ends with a `mod_timer` of that same
timer, and an exit function that begins with `del_timer`.  The callback runs
on a CPU of its own, and only one at a time; `del_timer` un-arms a pending
timer and does not wait for a running callback.

`Program` is what one such driver does between those calls.  A timer is alive
while it is pending or its callback is still before the `mod_timer`, and
`del_timer` is all that can end that (`alive_step`).  So the timer stays
quiet after the exit function exactly if `del_timer` meets no callback before
its `mod_timer`, and one that it meets behind it returns before the exit
function does (`quiet_iff_inTime`).
-/

set_option autoImplicit false

namespace EmbeddedSystem.Verified.SelfTimer

open EmbeddedSystem.Verified.Transition

/-- The next statement of the callback: one of the driver's own, `mod_timer`,
or the return. -/
inductive CallbackPc (C : Type) where
  | body (c : C)
  | modTimer
  | leave
deriving DecidableEq, Repr

/-- The next statement of the exit function; `loaded` is before it is
called. -/
inductive ExitPc (X : Type) where
  | loaded
  | delTimer
  | rest (x : X)
  | ret
  | returned
deriving DecidableEq, Repr

/-- A driver with globals `G`.  `C` are the statements of its callback before
the `mod_timer`, `X` those of its exit function behind the `del_timer`, and
`I` is what the callback reads from outside. -/
structure Program (G C X I : Type) where
  first : C
  body : G → C → I → G × Option C
  delayJiffies : G → Nat
  cleanup : Option X
  exit : G → X → G × Option X

structure State (G C X : Type) where
  shared : G
  jiffies : Nat
  expires : Option Nat
  callback : Option (CallbackPc C)
  exitPc : ExitPc X
deriving DecidableEq, Repr

inductive Move (I : Type) where
  | tick
  | fire
  | callback (i : I)
  | exit
deriving DecidableEq, Repr

variable {G C X I : Type}

/-- Where the callback is after a statement of its own. -/
def CallbackPc.after : Option C → CallbackPc C
  | none => .modTimer
  | some c => .body c

/-- Where the exit function is after a statement. -/
def ExitPc.after : Option X → ExitPc X
  | none => .ret
  | some x => .rest x

/-- The timer fires, if it is due and its last callback has returned. -/
def fire (p : Program G C X I) (s : State G C X) : Option (State G C X) :=
  match s.expires, s.callback with
  | some e, none =>
      if e ≤ s.jiffies then
        some { s with expires := none, callback := some (.body p.first) }
      else none
  | _, _ => none

/-- One statement of the callback. -/
def callbackStep (p : Program G C X I) (s : State G C X) (i : I) :
    Option (State G C X) :=
  match s.callback with
  | none => none
  | some (.body c) =>
      some { s with
        shared := (p.body s.shared c i).1
        callback := some (.after (p.body s.shared c i).2) }
  | some .modTimer =>
      some { s with
        expires := some (s.jiffies + p.delayJiffies s.shared)
        callback := some .leave }
  | some .leave => some { s with callback := none }

/-- One statement of the exit function. -/
def exitStep (p : Program G C X I) (s : State G C X) :
    Option (State G C X) :=
  match s.exitPc with
  | .loaded => some { s with exitPc := .delTimer }
  | .delTimer => some { s with expires := none, exitPc := .after p.cleanup }
  | .rest x =>
      some { s with
        shared := (p.exit s.shared x).1
        exitPc := .after (p.exit s.shared x).2 }
  | .ret => some { s with exitPc := .returned }
  | .returned => none

def step (p : Program G C X I) (s : State G C X) :
    Move I → Option (State G C X)
  | .tick => some { s with jiffies := s.jiffies + 1 }
  | .fire => fire p s
  | .callback i => callbackStep p s i
  | .exit => exitStep p s

/-! ## Alive -/

/-- The callback has yet to arm the timer. -/
def CallbackPc.rearms : CallbackPc C → Bool
  | .leave => false
  | _ => true

/-- The callback is in progress and has yet to arm the timer. -/
def State.rearming (s : State G C X) : Bool := s.callback.any (·.rearms)

/-- The timer is pending, or will be. -/
def State.alive (s : State G C X) : Bool := s.expires.isSome || s.rearming

/-- `del_timer` has been called. -/
def ExitPc.deleted : ExitPc X → Bool
  | .loaded => false
  | .delTimer => false
  | _ => true

/-- Not pending, and no callback in progress. -/
def State.Quiet (s : State G C X) : Prop :=
  s.expires = none ∧ s.callback = none

instance [DecidableEq C] (s : State G C X) : Decidable s.Quiet :=
  inferInstanceAs (Decidable (_ ∧ _))

/-- Once the exit function has returned, the timer is quiet. -/
def State.Gone (s : State G C X) : Prop := s.exitPc = .returned → s.Quiet

/-! ## What a step can do -/

inductive Step (p : Program G C X I) (s : State G C X) :
    Move I → State G C X → Prop where
  | tick : Step p s .tick { s with jiffies := s.jiffies + 1 }
  | fire (e : Nat) (he : s.expires = some e) (hidle : s.callback = none) :
      Step p s .fire
        { s with expires := none, callback := some (.body p.first) }
  | body (c : C) (i : I) (hc : s.callback = some (.body c)) :
      Step p s (.callback i)
        { s with
          shared := (p.body s.shared c i).1
          callback := some (.after (p.body s.shared c i).2) }
  | modTimer (i : I) (hc : s.callback = some .modTimer) :
      Step p s (.callback i)
        { s with
          expires := some (s.jiffies + p.delayJiffies s.shared)
          callback := some .leave }
  | leave (i : I) (hc : s.callback = some .leave) :
      Step p s (.callback i) { s with callback := none }
  | call (hpc : s.exitPc = .loaded) :
      Step p s .exit { s with exitPc := .delTimer }
  | delTimer (hpc : s.exitPc = .delTimer) :
      Step p s .exit { s with expires := none, exitPc := .after p.cleanup }
  | rest (x : X) (hpc : s.exitPc = .rest x) :
      Step p s .exit
        { s with
          shared := (p.exit s.shared x).1
          exitPc := .after (p.exit s.shared x).2 }
  | ret (hpc : s.exitPc = .ret) :
      Step p s .exit { s with exitPc := .returned }

theorem step_step {p : Program G C X I} {s t : State G C X} {mv : Move I}
    (h : step p s mv = some t) : Step p s mv t := by
  cases mv with
  | tick =>
      cases h
      exact .tick
  | fire =>
      simp only [step, fire] at h
      split at h
      case h_1 e he hidle =>
        split at h
        · cases h
          exact .fire e he hidle
        · cases h
      case h_2 => cases h
  | callback i =>
      simp only [step, callbackStep] at h
      split at h
      case h_1 => cases h
      case h_2 c hc =>
        cases h
        exact .body c i hc
      case h_3 hc =>
        cases h
        exact .modTimer i hc
      case h_4 hc =>
        cases h
        exact .leave i hc
  | exit =>
      simp only [step, exitStep] at h
      split at h
      case h_1 hpc =>
        cases h
        exact .call hpc
      case h_2 hpc =>
        cases h
        exact .delTimer hpc
      case h_3 x hpc =>
        cases h
        exact .rest x hpc
      case h_4 hpc =>
        cases h
        exact .ret hpc
      case h_5 => cases h

@[simp] theorem deleted_after (x : Option X) :
    (ExitPc.after x).deleted = true := by
  cases x <;> rfl

@[simp] theorem rearms_after (c : Option C) :
    (CallbackPc.after c).rearms = true := by
  cases c <;> rfl

/-- Nothing but `del_timer` ends the life of the timer, and nothing revives
it. -/
theorem alive_step {p : Program G C X I} {s t : State G C X} {mv : Move I}
    (h : Step p s mv t) (hpc : mv = .exit → s.exitPc ≠ .delTimer) :
    t.alive = s.alive := by
  cases h with
  | fire e he hidle =>
      simp [State.alive, State.rearming, he, CallbackPc.rearms]
  | body c i hc =>
      simp only [State.alive, State.rearming, hc, Option.any_some,
        rearms_after]
      rfl
  | modTimer i hc =>
      simp [State.alive, State.rearming, hc, CallbackPc.rearms]
  | leave i hc =>
      simp [State.alive, State.rearming, hc, CallbackPc.rearms]
  | delTimer hdel => exact absurd hdel (hpc rfl)
  | _ => rfl

/-- The exit function does not go back. -/
theorem deleted_step {p : Program G C X I} {s t : State G C X} {mv : Move I}
    (h : Step p s mv t) (hdel : s.exitPc.deleted = true) :
    t.exitPc.deleted = true := by
  cases h with
  | call hpc =>
      rw [hpc] at hdel
      cases hdel
  | delTimer hpc =>
      rw [hpc] at hdel
      cases hdel
  | rest x hpc => exact deleted_after _
  | ret hpc => rfl
  | _ => exact hdel

/-- A timer that is alive behind `del_timer` lives on. -/
theorem alive_run {p : Program G C X I} {s t : State G C X}
    {mvs : List (Move I)} (hdel : s.exitPc.deleted = true)
    (halive : s.alive = true) (hrun : run (step p) s mvs = some t) :
    t.alive = true := by
  refine (run_induct (P := fun s : State G C X =>
    s.exitPc.deleted = true ∧ s.alive = true) ?_ ⟨hdel, halive⟩ hrun).2
  intro s mv t hs hst
  have hstep := step_step hst
  refine ⟨deleted_step hstep hs.1, ?_⟩
  rw [alive_step hstep, hs.2]
  intro _ hpc
  rw [hpc] at hs
  cases hs.1

/-! ## Quiet after the exit function -/

/-- `del_timer` meets no callback that has yet to arm the timer, and the exit
function does not return before one that has armed it. -/
def InTime (s : State G C X) : Move I → Prop
  | .exit => (s.exitPc = .delTimer → s.rearming = false) ∧
      (s.exitPc = .ret → s.callback ≠ some .leave)
  | _ => True

instance [DecidableEq C] [DecidableEq X] (s : State G C X) :
    ∀ mv : Move I, Decidable (InTime s mv)
  | .exit => inferInstanceAs (Decidable (_ ∧ _))
  | .tick => isTrue trivial
  | .fire => isTrue trivial
  | .callback _ => isTrue trivial

/-- From `del_timer` on the timer is dead, and in the end it is quiet. -/
structure Stopped (s : State G C X) : Prop where
  dead : s.exitPc.deleted = true → s.alive = false
  idle : s.exitPc = .returned → s.callback = none

theorem Stopped.gone {s : State G C X} (h : Stopped s) : s.Gone := by
  intro hpc
  have hdead := h.dead (by rw [hpc]; rfl)
  unfold State.alive at hdead
  rw [Bool.or_eq_false_iff] at hdead
  exact ⟨Option.isNone_iff_eq_none.mp (by simpa using hdead.1), h.idle hpc⟩

/-- A callback that is under way has come before `del_timer`. -/
theorem Stopped.not_deleted {s : State G C X} (h : Stopped s)
    (halive : s.alive = true) : s.exitPc.deleted = false := by
  cases hdel : s.exitPc.deleted with
  | false => rfl
  | true =>
      rw [h.dead hdel] at halive
      cases halive

/-- The callback of a dead timer has nothing left but its return. -/
theorem idle_of_dead {s : State G C X} (h : s.alive = false)
    (hleave : s.callback ≠ some .leave) : s.callback = none := by
  cases hc : s.callback with
  | none => rfl
  | some pc =>
      cases pc with
      | leave => exact absurd hc hleave
      | body c =>
          simp [State.alive, State.rearming, hc, CallbackPc.rearms] at h
      | modTimer =>
          simp [State.alive, State.rearming, hc, CallbackPc.rearms] at h

theorem ExitPc.after_ne_returned (x : Option X) :
    ExitPc.after x ≠ .returned := by
  cases x <;> exact fun h => by cases h

theorem Stopped.step {p : Program G C X I} {s t : State G C X} {mv : Move I}
    (h : Stopped s) (hin : InTime s mv) (hst : step p s mv = some t) :
    Stopped t := by
  have hstep := step_step hst
  have hearly : s.alive = true → s.exitPc = t.exitPc → Stopped t := by
    intro halive hpc
    have hdel := h.not_deleted halive
    rw [hpc] at hdel
    refine ⟨fun h => ?_, fun h => ?_⟩
    · rw [hdel] at h
      cases h
    · rw [h] at hdel
      cases hdel
  cases hstep with
  | tick => exact ⟨h.dead, h.idle⟩
  | fire e he hidle =>
      exact hearly (by simp [State.alive, he]) rfl
  | body c i hc =>
      refine hearly ?_ rfl
      simp [State.alive, State.rearming, hc, CallbackPc.rearms]
  | modTimer i hc =>
      refine hearly ?_ rfl
      simp [State.alive, State.rearming, hc, CallbackPc.rearms]
  | leave i hc =>
      refine ⟨fun hdel => ?_, fun _ => rfl⟩
      rw [alive_step (p := p) (.leave i hc) (fun h => (by cases h))]
      exact h.dead hdel
  | call hpc => exact ⟨fun hdel => (by cases hdel), fun hret => (by cases hret)⟩
  | delTimer hpc =>
      refine ⟨fun _ => ?_, fun hret => absurd hret (ExitPc.after_ne_returned _)⟩
      exact hin.1 hpc
  | rest x hpc =>
      refine ⟨fun _ => ?_, fun hret => absurd hret (ExitPc.after_ne_returned _)⟩
      exact h.dead (by rw [hpc]; rfl)
  | ret hpc =>
      have hdead : s.alive = false := h.dead (by rw [hpc]; rfl)
      exact ⟨fun _ => hdead, fun _ => idle_of_dead hdead (hin.2 hpc)⟩

/-- Before the exit function is called, there is nothing to show. -/
theorem loaded_stopped {s : State G C X} (h : s.exitPc = .loaded) :
    Stopped s := by
  refine ⟨fun hdel => ?_, fun hret => ?_⟩
  · rw [h] at hdel
    cases hdel
  · rw [h] at hret
    cases hret

/-- What `InTime` forbids is seen when the exit function has returned. -/
theorem not_gone_of_late {p : Program G C X I} {s t u : State G C X}
    {mv : Move I} {mvs : List (Move I)} (hlate : ¬ InTime s mv)
    (hst : step p s mv = some t) (hrun : run (step p) t mvs = some u)
    (hret : u.exitPc = .returned) : ¬ (t.Gone ∧ u.Gone) := by
  rintro ⟨ht, hu⟩
  have hstep := step_step hst
  cases hstep with
  | call hpc =>
      apply hlate
      unfold InTime
      rw [hpc]
      exact ⟨fun h => (by cases h), fun h => by cases h⟩
  | rest x hpc =>
      apply hlate
      unfold InTime
      rw [hpc]
      exact ⟨fun h => (by cases h), fun h => by cases h⟩
  | delTimer hpc =>
      have hrearming : s.rearming = true := by
        cases hr : s.rearming with
        | true => rfl
        | false =>
            refine absurd ⟨fun _ => hr, fun h => ?_⟩ hlate
            rw [hpc] at h
            cases h
      -- the callback is still there, and arms the timer again
      have halive := alive_run (deleted_after p.cleanup)
        (by simpa [State.alive, State.rearming] using hrearming) hrun
      obtain ⟨hexp, hcb⟩ := hu hret
      simp [State.alive, State.rearming, hexp, hcb] at halive
  | ret hpc =>
      apply hlate
      have hnone : s.callback = none := (ht rfl).2
      refine ⟨fun h => ?_, fun _ => ?_⟩
      · rw [hpc] at h
        cases h
      · rw [hnone]
        exact fun h => by cases h
  | _ => exact hlate trivial

/-- In a run whose steps are all in time the timer is quiet when the exit
function has returned, and so it is in no other run that comes that far. -/
theorem quiet_iff_inTime {p : Program G C X I} {s t : State G C X}
    {mvs : List (Move I)} (hs : s.exitPc = .loaded)
    (hrun : run (step p) s mvs = some t) :
    (Along (step p) InTime s mvs → Throughout (step p) State.Gone s mvs) ∧
      (t.exitPc = .returned → Throughout (step p) State.Gone s mvs →
        Along (step p) InTime s mvs) := by
  constructor
  · intro hin xs ys u hsplit hxs
    rw [hsplit] at hin
    exact (run_induct_along (fun _ _ _ h hC hst => Stopped.step h hC hst)
      (loaded_stopped hs) hin.of_append hxs).gone
  · intro hret hgone
    apply Classical.byContradiction
    intro hnot
    obtain ⟨xs, mv, ys, m, n, hsplit, -, hxs, hlate, hst, hys⟩ :=
      first_break hrun hnot
    refine not_gone_of_late hlate hst hys hret ⟨?_, ?_⟩
    · refine hgone (xs ++ [mv]) ys n (by rw [hsplit, List.append_assoc]; rfl) ?_
      rw [run_append, hxs]
      exact run_single hst
    · exact hgone mvs [] t (List.append_nil _).symm hrun

end EmbeddedSystem.Verified.SelfTimer
