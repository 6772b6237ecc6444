import EmbeddedSystem.Labs.Ch4Delivery

/-!
# No reader of the ch4 queue misses its wake-up

`ch4_write` appends first and wakes afterwards, and `ch4_read` marks itself
as sleeping before it tests the list.  So a reader that has gone to sleep
has seen the list empty while it was marked, and whoever has appended
something since still owes it a wake-up (`Owed`).  Other readers may empty
the list in between; that only makes the debt easier to meet.
-/

set_option autoImplicit false

namespace EmbeddedSystem.Labs.Ch4Queue

open EmbeddedSystem.Verified
open EmbeddedSystem.Verified.WaitQueue
open EmbeddedSystem.Verified.Transition
open EmbeddedSystem.Verified.CallPool

/-- Call `i` is a `ch4_read` inside `schedule()`, and no wake-up was delivered
to it since it last marked itself as sleeping. -/
def SleepsUnwoken (c : Conf) (i : Nat) : Prop :=
  (∃ r : ReadCall, c.calls[i]? = some (.read r) ∧ r.pc = .wait .asleep) ∧
    marked c.shared.myWq i = true

/-- Some `ch4_write` has appended its message and not finished its wake-up. -/
def WakeUnderWay (c : Conf) : Prop :=
  ∃ (i : Nat) (w : WriteCall), c.calls[i]? = some (.write w) ∧ w.pc = .wake

/-- Outside of the writers' wake-ups, nobody sleeps beside a message. -/
def NoLostWakeup (c : Conf) : Prop :=
  ¬ WakeUnderWay c → c.shared.msgListHead ≠ [] → ∀ i, ¬ SleepsUnwoken c i

/-- A sleeping reader has an empty list in front of it or a wake-up coming;
and nobody waits exclusively, so one wake-up is for everybody. -/
structure Owed (c : Conf) : Prop where
  shared : Shared c.shared.myWq
  owed : ∀ i, SleepsUnwoken c i → c.shared.msgListHead = [] ∨ WakeUnderWay c

theorem Owed.noLostWakeup {c : Conf} (h : Owed c) : NoLostWakeup c := by
  intro hquiet hsome i hsleeps
  rcases h.owed i hsleeps with hempty | hwake
  · exact hsome hempty
  · exact hquiet hwake

theorem loaded_owed : Owed loaded := by
  constructor
  · intro e he
    cases he
  · rintro i ⟨⟨r, hl, -⟩, -⟩
    simp [loaded, start] at hl

/-! ## Steps of `ch4_read` -/

/-- A step inside the wait moves the wait queue only. -/
theorem ch4Read_wait {g g' : Ch4} {i : Nat} {r r' : ReadCall} {o : Outcome}
    {p : Phase} (hpc : r.pc = .wait p) (h : ch4Read g i r o = some (g', r')) :
    ∃ q pr, waitEventInterruptible g.myWq i false (!g.msgListHead.isEmpty)
        o.signal p = some (q, pr) ∧ g' = { g with myWq := q } ∧
      (r'.pc = .wait .asleep → pr = .again .asleep) := by
  simp only [ch4Read, hpc] at h
  split at h
  case h_1 => cases h
  case h_2 q p' hw =>
    cases h
    refine ⟨q, .again p', hw, rfl, fun hp => ?_⟩
    rw [ReadPc.wait.injEq] at hp
    rw [hp]
  case h_3 q ret hw =>
    cases h
    refine ⟨q, .done ret, hw, rfl, fun hp => ?_⟩
    simp only at hp
    split at hp <;> cases hp

/-- What a read does to the others' sleep: nothing.  It never adds to the
list, and it goes to sleep itself only beside an empty one. -/
theorem ch4Read_sleepers {g g' : Ch4} {i : Nat} {r r' : ReadCall}
    {o : Outcome} (hq : Shared g.myWq) (h : ch4Read g i r o = some (g', r')) :
    Shared g'.myWq ∧
      (∀ j, i ≠ j → marked g'.myWq j = marked g.myWq j) ∧
      (g.msgListHead = [] → g'.msgListHead = []) ∧
      (r'.pc = .wait .asleep → g'.msgListHead = []) := by
  by_cases hwait : ∃ p, r.pc = .wait p
  · obtain ⟨p, hpc⟩ := hwait
    obtain ⟨q, pr, hw, rfl, hasleep⟩ := ch4Read_wait hpc h
    refine ⟨hq.waitEventInterruptible hw,
      fun j hij => marked_waitEventInterruptible_ne hw hij, id, fun hp => ?_⟩
    rw [hasleep hp] at hw
    have hcond := cond_of_asleep hw
    simpa using hcond
  · have hst := ch4Read_step h
    have hframe : g'.myWq = g.myWq ∧
        (g.msgListHead = [] → g'.msgListHead = []) ∧
        r'.pc ≠ .wait .asleep := by
      cases hst with
      | waitAgain p p' q hpc => exact absurd ⟨p, hpc⟩ hwait
      | interrupted p q ret hpc => exact absurd ⟨p, hpc⟩ hwait
      | woken p q hpc => exact absurd ⟨p, hpc⟩ hwait
      | take n b rest t hpc hlist =>
          refine ⟨rfl, fun hnone => ?_, ReadPc.noConfusion⟩
          rw [hlist] at hnone
          cases hnone
      | recheckEmpty => exact ⟨rfl, id, ReadPc.noConfusion⟩
      | copied => exact ⟨rfl, id, ReadPc.noConfusion⟩
      | faulted => exact ⟨rfl, id, ReadPc.noConfusion⟩
      | freeMsg => exact ⟨rfl, id, ReadPc.noConfusion⟩
      | freeNode => exact ⟨rfl, id, ReadPc.noConfusion⟩
    obtain ⟨hwq, hlist, hpc⟩ := hframe
    rw [hwq]
    exact ⟨hq, fun _ _ => rfl, hlist, fun hp => absurd hp hpc⟩

/-! ## Steps of `ch4_write` -/

/-- A write wakes everybody, or it leaves the wait queue alone and, if it
appends, has its wake-up next. -/
theorem WriteStep.wakes {g g' : Ch4} {i : Nat} {w w' : WriteCall}
    (hst : WriteStep g i w g' w') :
    (w.pc = .wake ∧ g'.myWq = wakeUpInterruptible g.myWq) ∨
      (w.pc ≠ .wake ∧ g'.myWq = g.myWq ∧
        (g'.msgListHead = g.msgListHead ∨ w'.pc = .wake)) := by
  cases hst with
  | wake hpc => exact Or.inl ⟨hpc, rfl⟩
  | append n m hpc hm => exact Or.inr ⟨by simp [hpc], rfl, Or.inr rfl⟩
  | noNode hpc => exact Or.inr ⟨by simp [hpc], rfl, Or.inl rfl⟩
  | allocNode hpc => exact Or.inr ⟨by simp [hpc], rfl, Or.inl rfl⟩
  | noMsg n hpc => exact Or.inr ⟨by simp [hpc], rfl, Or.inl rfl⟩
  | allocMsg n junk hpc => exact Or.inr ⟨by simp [hpc], rfl, Or.inl rfl⟩
  | copied n b hpc hptr => exact Or.inr ⟨by simp [hpc], rfl, Or.inl rfl⟩
  | faulted n b m hpc hptr => exact Or.inr ⟨by simp [hpc], rfl, Or.inl rfl⟩
  | freeMsg n b code hpc hptr => exact Or.inr ⟨by simp [hpc], rfl, Or.inl rfl⟩
  | freeNode n code hpc => exact Or.inr ⟨by simp [hpc], rfl, Or.inl rfl⟩

/-! ## The invariant -/

theorem Owed.issue {c : Conf} (h : Owed c) (k : Ioctl) :
    Owed ⟨c.shared, c.calls ++ [ch4Ioctl k]⟩ := by
  refine ⟨h.shared, ?_⟩
  rintro j ⟨⟨r, hr, hpc⟩, hmark⟩
  rcases lookup_append_cases hr with hold | ⟨-, hnew⟩
  · apply (h.owed j ⟨⟨r, hold, hpc⟩, hmark⟩).imp_right
    rintro ⟨i, w, hw, hwake⟩
    exact ⟨i, w, lookup_append_old _ hw, hwake⟩
  · -- a call that was just issued is not asleep
    unfold ch4Ioctl at hnew
    split at hnew
    · cases hnew
      cases hpc
    · split at hnew <;> cases hnew

theorem Owed.read {c : Conf} {i : Nat} {r r' : ReadCall} {g : Ch4}
    {o : Outcome} (h : Owed c) (hl : c.calls[i]? = some (.read r))
    (hb : ch4Read c.shared i r o = some (g, r')) :
    Owed ⟨g, c.calls.set i (.read r')⟩ := by
  obtain ⟨hshared, hmarks, hlist, hasleep⟩ := ch4Read_sleepers h.shared hb
  refine ⟨hshared, ?_⟩
  rintro j ⟨⟨s, hs, hpc⟩, hmark⟩
  rcases lookup_set_cases hl hs with ⟨-, heq⟩ | ⟨hij, hold⟩
  · cases heq
    exact Or.inl (hasleep hpc)
  · rw [hmarks j hij] at hmark
    apply (h.owed j ⟨⟨s, hold, hpc⟩, hmark⟩).imp hlist
    rintro ⟨k, w, hw, hwake⟩
    have hik : i ≠ k := by
      rintro rfl
      rw [hl] at hw
      cases hw
    exact ⟨k, w, lookup_set_ne _ hik hw, hwake⟩

theorem Owed.write {c : Conf} {i : Nat} {w w' : WriteCall} {g : Ch4}
    (h : Owed c) (hl : c.calls[i]? = some (.write w))
    (hst : WriteStep c.shared i w g w') :
    Owed ⟨g, c.calls.set i (.write w')⟩ := by
  rcases hst.wakes with ⟨-, hwq⟩ | ⟨hpcw, hwq, hlist⟩
  · -- nobody is left on the queue
    have hnone : g.myWq = [] := hwq.trans (wakeUpInterruptible_shared h.shared)
    refine ⟨?_, ?_⟩
    · show Shared g.myWq
      rw [hnone]
      intro e he
      cases he
    · rintro j ⟨-, hmark⟩
      have hfalse : marked g.myWq j = true := hmark
      rw [hnone] at hfalse
      cases hfalse
  · refine ⟨?_, ?_⟩
    · show Shared g.myWq
      rw [hwq]
      exact h.shared
    rintro j ⟨⟨s, hs, hpc⟩, hmark⟩
    rcases hlist with hsame | hwake
    · rcases lookup_set_cases hl hs with ⟨-, heq⟩ | ⟨hij, hold⟩
      · cases heq
      · have hmark' : marked c.shared.myWq j = true := hwq ▸ hmark
        apply (h.owed j ⟨⟨s, hold, hpc⟩, hmark'⟩).imp hsame.trans
        rintro ⟨k, v, hv, hwake⟩
        have hik : i ≠ k := by
          rintro rfl
          rw [hl] at hv
          cases hv
          exact hpcw hwake
        exact ⟨k, v, lookup_set_ne _ hik hv, hwake⟩
    · exact Or.inr ⟨i, w', lookup_set_self hl, hwake⟩

theorem Owed.step {c d : Conf} {mv : Move} (h : Owed c)
    (hst : Ch4Queue.step c mv = some d) : Owed d := by
  rcases step_cases hst with
    ⟨k, hmv, hd⟩ | ⟨i, o, l, g, l', hmv, hl, hb, hd⟩
  · rw [hd]
    exact h.issue k
  · rw [hd]
    cases l with
    | read r =>
        simp only [ch4Step, Option.map_eq_some_iff, Prod.mk.injEq] at hb
        obtain ⟨⟨_, r'⟩, hr, rfl, rfl⟩ := hb
        exact h.read hl hr
    | write w =>
        simp only [ch4Step, Option.map_eq_some_iff, Prod.mk.injEq] at hb
        obtain ⟨⟨_, w'⟩, hw, rfl, rfl⟩ := hb
        exact h.write hl (ch4Write_step hw)
    | invalid code => simp [ch4Step] at hb

/-- In every reachable state in which no `ch4_write` is between its append
and the end of its wake-up, a message in the queue means that no reader is
asleep without a wake-up on its way to it. -/
theorem no_lost_wakeup {mvs : List Move} {c : Conf}
    (h : run step loaded mvs = some c) : NoLostWakeup c := by
  have hinv : Owed c :=
    run_induct (fun _ _ _ hc hst => hc.step hst) loaded_owed h
  exact hinv.noLostWakeup

/-- Call 0 falls asleep on the empty list, and call 1 writes. -/
def wakeRun : List Move :=
  List.flatten
    [ [.issue ⟨ch4IoctlRead, Vector.replicate 132 0⟩]
    , List.replicate 3 (.advance 0 smooth)
    , [.issue ⟨ch4IoctlWrite, hello⟩]
    , List.replicate 5 (.advance 1 smooth) ]

theorem no_lost_wakeup_wakeRun :
    ∃ c, run step loaded wakeRun = some c ∧ NoLostWakeup c := by
  have hsome : (run step loaded wakeRun).isSome = true := by decide +kernel
  obtain ⟨c, hrun⟩ := Option.isSome_iff_exists.mp hsome
  exact ⟨c, hrun, no_lost_wakeup hrun⟩

end EmbeddedSystem.Labs.Ch4Queue
