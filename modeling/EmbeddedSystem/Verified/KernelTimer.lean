/-!
# Kernel timers

A timer is pending while it is armed with an expiry time.  When that time has
come, the timer fires, which un-arms it and starts its callback; from then on
the callback runs like a thread of its own, and re-arming the timer does not
call it back.  The model counts the callbacks that have been started and have
not reached the body of the timer function yet, and the ones that have gone
through it and not returned.
-/

set_option autoImplicit false

namespace EmbeddedSystem.Verified

structure KernelTimer where
  expires : Option Nat
  /-- callbacks that have fired and not run their body -/
  fired : Nat
  /-- callbacks that have run their body and not returned -/
  leaving : Nat
deriving DecidableEq, Repr

namespace KernelTimer

/-- `timer_setup`: not armed. -/
def timerSetup : KernelTimer := ⟨none, 0, 0⟩

/-- `mod_timer`: arm the timer, or change the expiry time of an armed one. -/
def modTimer (t : KernelTimer) (expires : Nat) : KernelTimer :=
  { t with expires := some expires }

/-- The timer fires, if it is due. -/
def fire (t : KernelTimer) (now : Nat) : Option KernelTimer :=
  match t.expires with
  | none => none
  | some e =>
      if e ≤ now then some { t with expires := none, fired := t.fired + 1 }
      else none

/-- A callback runs its body. -/
def body (t : KernelTimer) : Option KernelTimer :=
  if t.fired = 0 then none
  else some { t with fired := t.fired - 1, leaving := t.leaving + 1 }

/-- A callback returns. -/
def finish (t : KernelTimer) : Option KernelTimer :=
  if t.leaving = 0 then none
  else some { t with leaving := t.leaving - 1 }

/-- `del_timer_sync`: it returns when no callback is running, with the timer
not armed. -/
def delTimerSync (t : KernelTimer) : Option KernelTimer :=
  if t.fired = 0 ∧ t.leaving = 0 then some { t with expires := none }
  else none

/-- Not armed, and no callback in progress. -/
def Quiet (t : KernelTimer) : Prop :=
  t.expires = none ∧ t.fired = 0 ∧ t.leaving = 0

instance (t : KernelTimer) : Decidable t.Quiet :=
  inferInstanceAs (Decidable (_ ∧ _))

/-! ## What the operations do -/

theorem fire_cases {t t' : KernelTimer} {now : Nat}
    (h : t.fire now = some t') :
    ∃ e, t.expires = some e ∧ e ≤ now ∧
      t' = { t with expires := none, fired := t.fired + 1 } := by
  unfold fire at h
  cases he : t.expires with
  | none => simp [he] at h
  | some e =>
      by_cases hle : e ≤ now
      · simp only [he, if_pos hle, Option.some.injEq] at h
        exact ⟨e, rfl, hle, h.symm⟩
      · simp [he, hle] at h

theorem body_cases {t t' : KernelTimer} (h : t.body = some t') :
    0 < t.fired ∧
      t' = { t with fired := t.fired - 1, leaving := t.leaving + 1 } := by
  unfold body at h
  by_cases hz : t.fired = 0
  · rw [if_pos hz] at h
    cases h
  · rw [if_neg hz, Option.some.injEq] at h
    exact ⟨Nat.pos_of_ne_zero hz, h.symm⟩

theorem finish_cases {t t' : KernelTimer} (h : t.finish = some t') :
    0 < t.leaving ∧ t' = { t with leaving := t.leaving - 1 } := by
  unfold finish at h
  by_cases hz : t.leaving = 0
  · rw [if_pos hz] at h
    cases h
  · rw [if_neg hz, Option.some.injEq] at h
    exact ⟨Nat.pos_of_ne_zero hz, h.symm⟩

theorem delTimerSync_quiet {t t' : KernelTimer}
    (h : t.delTimerSync = some t') : t'.Quiet := by
  unfold delTimerSync at h
  by_cases hz : t.fired = 0 ∧ t.leaving = 0
  · rw [if_pos hz, Option.some.injEq] at h
    subst h
    exact ⟨rfl, hz.1, hz.2⟩
  · rw [if_neg hz] at h
    cases h

theorem timerSetup_quiet : timerSetup.Quiet := ⟨rfl, rfl, rfl⟩

end KernelTimer

end EmbeddedSystem.Verified
