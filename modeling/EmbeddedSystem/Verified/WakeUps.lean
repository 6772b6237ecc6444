import EmbeddedSystem.Verified.CallPool
import EmbeddedSystem.Verified.WaitQueue

/-!
# Why no wake-up is lost

Calls of a pool wait on one queue, none of them exclusively, for a condition
that other calls make true.  A waiter marks itself before it tests the
condition for the last time, and whoever makes the condition true wakes the
queue afterwards.  `Discipline` says this of the steps of one call.

Then a waiter that sleeps although no wake-up has reached it has seen the
condition false while it was marked, and if it has become true since, somebody
still owes the queue a wake-up (`Owed.noLostWakeup`).  The condition may become
false again in between.
-/

set_option autoImplicit false

namespace EmbeddedSystem.Verified.WakeUps

open EmbeddedSystem.Verified.Transition
open EmbeddedSystem.Verified.CallPool
open EmbeddedSystem.Verified.WaitQueue

variable {G L K O : Type}

/-- How the calls wait and wake: the queue, the condition, which calls sleep,
and which have yet to wake the queue. -/
structure Waiting (G L : Type) where
  queue : G → Queue
  ready : G → Bool
  asleep : L → Bool
  owes : L → Bool

/-- What a step of call `i` may do. -/
structure Keeps (W : Waiting G L) (g : G) (i : Nat) (l : L) (g' : G)
    (l' : L) : Prop where
  shared : Shared (W.queue g) → Shared (W.queue g')
  marks : ∀ j, i ≠ j → marked (W.queue g') j = true →
    marked (W.queue g) j = true
  sleeps : W.asleep l' = true → W.ready g' = false
  supplies : W.ready g' = true → W.ready g = true ∨ W.owes l' = true
  pays : W.owes l = true → W.owes l' = true ∨
    (Shared (W.queue g) → W.queue g' = [])

/-- Every step that meets `C` keeps the rules, and a new call neither sleeps
nor owes. -/
structure Discipline (W : Waiting G L) (enter : K → L)
    (body : G → Nat → L → O → Option (G × L)) (C : G → L → Prop) : Prop where
  awake : ∀ k, W.asleep (enter k) = false
  keeps : ∀ g i l o g' l', C g l → body g i l o = some (g', l') →
    Keeps W g i l g' l'

/-- Call `i` sleeps, and no wake-up has reached it since it marked itself. -/
def SleepsUnwoken (W : Waiting G L) (c : Conf G L) (i : Nat) : Prop :=
  (c.calls[i]?).any W.asleep = true ∧ marked (W.queue c.shared) i = true

/-- Somebody is about to wake the queue. -/
def WakeUnderWay (W : Waiting G L) (c : Conf G L) : Prop :=
  ∃ l ∈ c.calls, W.owes l = true

/-- Unless a wake-up is under way, nobody sleeps while the condition is
true. -/
def NoLostWakeup (W : Waiting G L) (c : Conf G L) : Prop :=
  ¬ WakeUnderWay W c → W.ready c.shared = true →
    ∀ i, ¬ SleepsUnwoken W c i

/-- The condition is false for whoever sleeps, or a wake-up is owed. -/
structure Owed (W : Waiting G L) (c : Conf G L) : Prop where
  shared : Shared (W.queue c.shared)
  owed : ∀ i, SleepsUnwoken W c i →
    W.ready c.shared = false ∨ WakeUnderWay W c

theorem Owed.noLostWakeup {W : Waiting G L} {c : Conf G L} (h : Owed W c) :
    NoLostWakeup W c := by
  intro hquiet hready i hsleeps
  rcases h.owed i hsleeps with hfalse | hwake
  · rw [hfalse] at hready
    cases hready
  · exact hquiet hwake

theorem start_owed (W : Waiting G L) {g : G} (hg : W.queue g = []) :
    Owed W (start g) := by
  have hshared : W.queue (start g : Conf G L).shared = [] := hg
  refine ⟨?_, fun i hi => ?_⟩
  · rw [hshared]
    exact fun e he => by cases he
  · have hmark := hi.2
    rw [hshared] at hmark
    cases hmark

section Step

variable {W : Waiting G L} {enter : K → L}
  {body : G → Nat → L → O → Option (G × L)} {C : G → L → Prop}

/-- The condition of `Discipline` on a move of the pool. -/
def Meets (C : G → L → Prop) (c : Conf G L) : Move K O → Prop
  | .issue _ => True
  | .advance i _ => ∀ l ∈ c.calls[i]?, C c.shared l

instance [∀ g l, Decidable (C g l)] (c : Conf G L) :
    ∀ mv : Move K O, Decidable (Meets C c mv)
  | .issue _ => isTrue trivial
  | .advance i _ => inferInstanceAs (Decidable (∀ l ∈ c.calls[i]?, _))

theorem Owed.issue (hd : Discipline W enter body C) {c : Conf G L}
    (h : Owed W c) (k : K) : Owed W ⟨c.shared, c.calls ++ [enter k]⟩ := by
  refine ⟨h.shared, fun i hi => ?_⟩
  have hold : SleepsUnwoken W c i := by
    refine ⟨?_, hi.2⟩
    obtain ⟨l, hl, hasleep⟩ := (Option.any_eq_true _ _).mp hi.1
    rcases lookup_append_cases hl with hold | ⟨-, hnew⟩
    · rw [hold]
      exact hasleep
    · -- a call that was just issued is awake
      rw [hnew, hd.awake k] at hasleep
      cases hasleep
  apply (h.owed i hold).imp_right
  rintro ⟨l, hl, howes⟩
  exact ⟨l, List.mem_append_left _ hl, howes⟩

theorem Owed.advance {c : Conf G L} {i : Nat} {l l' : L} {g : G}
    (h : Owed W c) (hl : c.calls[i]? = some l)
    (hkeeps : Keeps W c.shared i l g l') : Owed W ⟨g, c.calls.set i l'⟩ := by
  refine ⟨hkeeps.shared h.shared, fun j hj => ?_⟩
  have hmine : l' ∈ c.calls.set i l' :=
    List.mem_of_getElem? (lookup_set_self hl)
  -- what was owed before is owed still, or the queue is empty
  have hdebt : WakeUnderWay W c →
      WakeUnderWay W ⟨g, c.calls.set i l'⟩ ∨ W.queue g = [] := by
    rintro ⟨m, hm, howes⟩
    obtain ⟨k, hk⟩ := List.mem_iff_getElem?.mp hm
    by_cases hik : i = k
    · subst hik
      rw [hl, Option.some.injEq] at hk
      rw [← hk] at howes
      rcases hkeeps.pays howes with hstill | hnone
      · exact Or.inl ⟨l', hmine, hstill⟩
      · exact Or.inr (hnone h.shared)
    · exact Or.inl ⟨m, List.mem_of_getElem? (lookup_set_ne _ hik hk), howes⟩
  obtain ⟨m, hm, hasleep⟩ := (Option.any_eq_true _ _).mp hj.1
  rcases lookup_set_cases hl hm with ⟨-, heq⟩ | ⟨hij, hold⟩
  · rw [heq] at hasleep
    exact Or.inl (hkeeps.sleeps hasleep)
  · have hbefore : SleepsUnwoken W c j := by
      refine ⟨?_, hkeeps.marks j hij hj.2⟩
      rw [hold]
      exact hasleep
    cases hready : W.ready g with
    | false => exact Or.inl rfl
    | true =>
        right
        rcases hkeeps.supplies hready with hsame | howes
        · rcases h.owed j hbefore with hfalse | hwake
          · rw [hfalse] at hsame
            cases hsame
          · rcases hdebt hwake with hstill | hnone
            · exact hstill
            · have hmark : marked (W.queue g) j = true := hj.2
              rw [hnone] at hmark
              cases hmark
        · exact ⟨l', hmine, howes⟩

theorem Owed.step (hd : Discipline W enter body C) {c d : Conf G L}
    {mv : Move K O} (h : Owed W c) (hC : Meets C c mv)
    (hst : CallPool.step enter body c mv = some d) : Owed W d := by
  rcases step_cases hst with
    ⟨k, -, rfl⟩ | ⟨i, o, l, g, l', rfl, hl, hb, rfl⟩
  · exact h.issue hd k
  · exact h.advance hl (hd.keeps _ _ _ _ _ _ (hC l hl) hb)

/-- No run whose steps meet the condition loses a wake-up. -/
theorem noLostWakeup_run (hd : Discipline W enter body C) {c d : Conf G L}
    {mvs : List (Move K O)} (h : Owed W c)
    (hC : Along (CallPool.step enter body) (Meets C) c mvs)
    (hrun : run (CallPool.step enter body) c mvs = some d) :
    NoLostWakeup W d :=
  (run_induct_along (fun _ _ _ h hC hst => Owed.step hd h hC hst) h hC
    hrun).noLostWakeup

end Step

/-! ## Waits with a time-out

What `WaitQueue` proves of `wait_event_interruptible`, for the variant with a
time-out. -/

theorem waitEventInterruptibleTimeout_queue {q q' : Queue} {i : Nat}
    {cond signal : Bool} {left elapsed left' : Nat} {p : Phase}
    {r : Progress}
    (h : waitEventInterruptibleTimeout q i cond signal left elapsed p =
      some (q', r, left')) :
    q' = q ∨ q' = finishWait q i ∨ q' = prepareToWait q i false := by
  cases p with
  | entry =>
      simp only [waitEventInterruptibleTimeout] at h
      split at h <;> cases h <;> exact Or.inl rfl
  | prepare =>
      simp only [waitEventInterruptibleTimeout] at h
      split at h
      · cases h
        exact Or.inr (Or.inl rfl)
      · cases h
        exact Or.inr (Or.inr rfl)
  | test sig =>
      simp only [waitEventInterruptibleTimeout] at h
      split at h
      · cases h
        exact Or.inr (Or.inl rfl)
      · split at h <;> cases h <;> exact Or.inl rfl
  | asleep =>
      simp only [waitEventInterruptibleTimeout] at h
      split at h
      · cases h
        exact Or.inr (Or.inl rfl)
      · split at h
        · cases h
        · cases h
          exact Or.inl rfl

theorem cond_of_asleep_timeout {q q' : Queue} {i : Nat}
    {cond signal : Bool} {left elapsed left' : Nat} {p : Phase}
    (h : waitEventInterruptibleTimeout q i cond signal left elapsed p =
      some (q', .again .asleep, left')) : cond = false := by
  cases p with
  | entry =>
      simp only [waitEventInterruptibleTimeout] at h
      split at h <;> cases h
  | prepare =>
      simp only [waitEventInterruptibleTimeout] at h
      split at h <;> cases h
  | test sig =>
      cases cond with
      | false => rfl
      | true => simp [waitEventInterruptibleTimeout, waitCondTimeout] at h
  | asleep =>
      simp only [waitEventInterruptibleTimeout] at h
      split at h
      · cases h
      · split at h <;> cases h

/-- What a step of a waiter that is not exclusive does to the queue. -/
theorem Shared.of_wait {q q' : Queue} {i : Nat} (hq : Shared q)
    (h : q' = q ∨ q' = finishWait q i ∨ q' = prepareToWait q i false) :
    Shared q' := by
  rcases h with rfl | rfl | rfl
  · exact hq
  · exact fun e he => hq e (List.mem_filter.mp he).1
  · intro e he
    unfold prepareToWait at he
    split at he
    · exact hq e he
    · rw [if_neg (by decide)] at he
      rcases List.mem_cons.mp he with rfl | hold
      · rfl
      · exact hq e hold

theorem marked_of_wait {q q' : Queue} {i j : Nat} (hij : i ≠ j)
    (h : q' = q ∨ q' = finishWait q i ∨ q' = prepareToWait q i false) :
    marked q' j = marked q j := by
  rcases h with rfl | rfl | rfl
  · rfl
  · exact marked_finishWait_ne q hij
  · exact marked_prepareToWait_ne q false hij

end EmbeddedSystem.Verified.WakeUps
