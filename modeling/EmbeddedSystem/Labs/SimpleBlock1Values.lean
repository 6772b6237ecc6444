import EmbeddedSystem.Labs.SimpleBlock1

/-!
# The values that `simple_block_1.c` returns

Every ioctl changes `my_data` in a critical section, but the `return my_data`
comes after it.  A call therefore returns the value of its own update only as
far as the updates that slip in between cancel out (`own_values_iff`).
-/

set_option autoImplicit false

namespace EmbeddedSystem.Labs.SimpleBlock1

open EmbeddedSystem.Verified
open EmbeddedSystem.Verified.CallPool
open EmbeddedSystem.Verified.Transition

abbrev Move := CallPool.Move Ioctl Env

/-- One move of the module. -/
abbrev move (hz : Nat) : Conf → Move → Option Conf :=
  CallPool.step (simpleBlock1Ioctl hz) simpleBlock1Step

/-! ## Sums of updates -/

/-- What the next step of this call adds to `my_data`. -/
def callDelta (l : Call) : BitVec 64 :=
  match l.pc with
  | .decrement => -1
  | .increment => l.ioctl.arg
  | _ => 0

/-- What a move adds to it. -/
def delta (c : Conf) : Move → BitVec 64
  | .issue _ => 0
  | .advance i _ =>
      match c.calls[i]? with
      | none => 0
      | some l => callDelta l

/-- And what the moves of a run add up to. -/
def drift (hz : Nat) : Conf → List Move → BitVec 64
  | _, [] => 0
  | c, mv :: mvs =>
      match move hz c mv with
      | none => 0
      | some d => delta c mv + drift hz d mvs

theorem myData_of_callStep {g g' : Block1} {i : Nat} {l l' : Call} {o : Env}
    (h : simpleBlock1Step g i l o = some (g', l')) :
    g'.myData = g.myData + callDelta l := by
  have hwait : ∀ q : WaitQueue.Queue, callDelta l = 0 →
      ({ g with myWq := q } : Block1).myData = g.myData + callDelta l := by
    intro q hzero
    rw [hzero]
    exact (BitVec.add_zero _).symm
  unfold simpleBlock1Step at h
  unfold callDelta at hwait ⊢
  split at h
  case h_1 p hpc =>
    rw [hpc] at hwait ⊢
    split at h
    · cases h
    · cases h
      exact hwait _ rfl
    · cases h
      exact hwait _ rfl
  case h_2 p hpc =>
    rw [hpc] at hwait ⊢
    split at h
    · cases h
    · cases h
      exact hwait _ rfl
    · cases h
      exact hwait _ rfl
  case h_3 p left hpc =>
    rw [hpc] at hwait ⊢
    split at h
    · cases h
    · cases h
      exact hwait _ rfl
    · cases h
      exact hwait _ rfl
  case h_4 hpc =>
    rw [hpc]
    cases h
    exact BitVec.sub_eq_add_neg _ _
  case h_5 hpc =>
    rw [hpc]
    cases h
    rfl
  case h_6 hpc =>
    rw [hpc] at hwait ⊢
    cases h
    exact hwait _ rfl
  case h_7 hpc =>
    rw [hpc] at hwait ⊢
    cases h
    exact hwait _ rfl
  case h_8 => cases h

theorem myData_of_move {hz : Nat} {c d : Conf} {mv : Move}
    (h : move hz c mv = some d) :
    d.shared.myData = c.shared.myData + delta c mv := by
  rcases step_cases h with
    ⟨k, rfl, rfl⟩ | ⟨i, o, l, g, l', rfl, hl, hb, rfl⟩
  · exact (BitVec.add_zero _).symm
  · simp only [delta, hl]
    exact myData_of_callStep hb

theorem myData_of_run {hz : Nat} {c d : Conf} {mvs : List Move}
    (h : run (move hz) c mvs = some d) :
    d.shared.myData = c.shared.myData + drift hz c mvs := by
  induction mvs generalizing c with
  | nil =>
      rw [run_nil, Option.some.injEq] at h
      rw [← h]
      exact (BitVec.add_zero _).symm
  | cons mv mvs ih =>
      obtain ⟨m, hm, hrest⟩ := run_cons_some h
      simp only [drift, hm]
      rw [ih hrest, myData_of_move hm, BitVec.add_assoc]

/-! ## From the update to the return -/

/-- The call has made its update, and will read `my_data` back. -/
def Updated : Pc → Prop
  | .wake => True
  | .readBack => True
  | _ => False

/-- A call that has returned stays as it is. -/
theorem returned_of_run {hz : Nat} {c d : Conf} {mvs : List Move} {i : Nat}
    {k : Ioctl} {code : Int} (hl : c.calls[i]? = some ⟨k, .returned code⟩)
    (h : run (move hz) c mvs = some d) :
    d.calls[i]? = some ⟨k, .returned code⟩ :=
  run_induct (P := fun c : Conf => c.calls[i]? = some ⟨k, .returned code⟩)
    (fun _ _ _ hc hst => lookup_ended hc (fun _ _ => rfl) hst) hl h

/-- One move, seen by a call that has made its update. -/
theorem updated_step {hz : Nat} {c d : Conf} {mv : Move} {i : Nat} {l : Call}
    (hl : c.calls[i]? = some l) (hpc : Updated l.pc)
    (h : move hz c mv = some d) :
    (∃ l', d.calls[i]? = some l' ∧ Updated l'.pc) ∨
      ∃ o, mv = .advance i o ∧ l.pc = .readBack ∧ d.calls[i]? =
        some ⟨l.ioctl, .returned c.shared.myData.toInt⟩ := by
  rcases step_cases h with
    ⟨k, rfl, rfl⟩ | ⟨j, o, m, g, m', rfl, hm, hb, rfl⟩
  · exact Or.inl ⟨l, lookup_append_old _ hl, hpc⟩
  · by_cases hji : j = i
    · subst hji
      rw [hl, Option.some.injEq] at hm
      subst hm
      obtain ⟨k, pc⟩ := l
      cases pc with
      | wake =>
          cases hb
          exact Or.inl ⟨_, lookup_set_self hl, trivial⟩
      | readBack =>
          cases hb
          exact Or.inr ⟨o, rfl, rfl, lookup_set_self hl⟩
      | _ => exact hpc.elim
    · exact Or.inl ⟨l, lookup_set_ne m' hji hl, hpc⟩

/-- A call that has made its update and has returned at the end has read
`my_data` in between. -/
theorem readBack_of_returned {hz : Nat} {c d : Conf} {mvs : List Move}
    {i : Nat} {l : Call} {k : Ioctl} {code : Int}
    (hl : c.calls[i]? = some l) (hpc : Updated l.pc)
    (hrun : run (move hz) c mvs = some d)
    (hret : d.calls[i]? = some ⟨k, .returned code⟩) :
    ∃ us o vs m l', mvs = us ++ .advance i o :: vs ∧
      run (move hz) c us = some m ∧ m.calls[i]? = some l' ∧
      l'.pc = .readBack ∧ code = m.shared.myData.toInt := by
  induction mvs generalizing c l with
  | nil =>
      rw [run_nil, Option.some.injEq] at hrun
      rw [hrun, hret, Option.some.injEq] at hl
      rw [← hl] at hpc
      exact hpc.elim
  | cons mv mvs ih =>
      obtain ⟨m, hm, hrest⟩ := run_cons_some hrun
      rcases updated_step hl hpc hm with
        ⟨l', hl', hpc'⟩ | ⟨o, rfl, hback, hdone⟩
      · obtain ⟨us, o, vs, n, l'', rfl, hus, hn⟩ := ih hl' hpc' hrest
        refine ⟨mv :: us, o, vs, n, l'', rfl, ?_, hn⟩
        rw [run_cons, hm]
        exact hus
      · refine ⟨[], o, mvs, c, l, rfl, rfl, hl, hback, ?_⟩
        have hend := returned_of_run hdone hrest
        rw [hret, Option.some.injEq, Call.mk.injEq, Pc.returned.injEq] at hend
        exact hend.2

/-! ## Whose value is returned -/

/-- In the run `mvs`, call `i` makes its update in the last move before `ys`,
and leaves the module in state `t`. -/
def UpdatesBefore (hz : Nat) (mvs : List Move) (i : Nat) (t : Conf)
    (ys : List Move) : Prop :=
  ∃ xs o s l, mvs = xs ++ .advance i o :: ys ∧
    run (move hz) (start simpleBlock1Init) xs = some s ∧
    s.calls[i]? = some l ∧ (l.pc = .decrement ∨ l.pc = .increment) ∧
    move hz s (.advance i o) = some t

/-- Every call that has made its update and returned has returned the value
of `my_data` right after the update. -/
def OwnValues (hz : Nat) (mvs : List Move) (c : Conf) : Prop :=
  ∀ i t ys k code, UpdatesBefore hz mvs i t ys →
    c.calls[i]? = some ⟨k, .returned code⟩ → code = t.shared.myData.toInt

/-- Whenever a call reads `my_data` back, the updates since its own cancel
out. -/
def Undisturbed (hz : Nat) (mvs : List Move) : Prop :=
  ∀ i t us o vs m l, UpdatesBefore hz mvs i t (us ++ .advance i o :: vs) →
    run (move hz) t us = some m → m.calls[i]? = some l → l.pc = .readBack →
    drift hz t us = 0

theorem updated_after_update {hz : Nat} {s t : Conf} {i : Nat} {o : Env}
    {l : Call} (hl : s.calls[i]? = some l)
    (hpc : l.pc = .decrement ∨ l.pc = .increment)
    (h : move hz s (.advance i o) = some t) :
    ∃ l', t.calls[i]? = some l' ∧ Updated l'.pc := by
  obtain ⟨k, pc⟩ := l
  rcases hpc with rfl | rfl
  · have hst : move hz s (.advance i o) = _ := step_advance hl rfl
    rw [hst, Option.some.injEq] at h
    rw [← h]
    exact ⟨_, lookup_set_self hl, trivial⟩
  · have hst : move hz s (.advance i o) = _ := step_advance hl rfl
    rw [hst, Option.some.injEq] at h
    rw [← h]
    exact ⟨_, lookup_set_self hl, trivial⟩

/-- The calls of a run return the values of their own updates exactly if, for
each of them, the updates of the others between its own update and its
`return my_data` add up to 0 (modulo 2⁶⁴), as they do if there are none. -/
theorem own_values_iff {hz : Nat} {mvs : List Move} {c : Conf}
    (hrun : run (move hz) (start simpleBlock1Init) mvs = some c) :
    OwnValues hz mvs c ↔ Undisturbed hz mvs := by
  -- the run goes on from the state after an update
  have hrest : ∀ {i t ys}, UpdatesBefore hz mvs i t ys →
      run (move hz) t ys = some c := by
    rintro i t ys ⟨xs, o, s, l, rfl, hxs, -, -, hst⟩
    rw [run_append, hxs, Option.bind_some, run_cons, hst] at hrun
    exact hrun
  constructor
  · intro hown i t us o vs m l hup hus hl hback
    have hys := hrest hup
    rw [run_append, hus, Option.bind_some] at hys
    obtain ⟨n, hn, hvs⟩ := run_cons_some hys
    obtain ⟨k, pc⟩ := l
    cases hback
    have hst : move hz m (.advance i o) = _ := step_advance hl rfl
    rw [hst, Option.some.injEq] at hn
    have hdone : n.calls[i]? =
        some ⟨k, .returned m.shared.myData.toInt⟩ := by
      rw [← hn]
      exact lookup_set_self hl
    have hsame := BitVec.toInt_inj.mp
      (hown i t _ k _ hup (returned_of_run hdone hvs))
    rw [myData_of_run hus] at hsame
    calc drift hz t us
        = drift hz t us + t.shared.myData - t.shared.myData :=
          (BitVec.add_sub_cancel _ _).symm
      _ = t.shared.myData - t.shared.myData := by
          rw [BitVec.add_comm, hsame]
      _ = 0 := BitVec.sub_self _
  · intro hquiet i t ys k code hup hret
    have hys := hrest hup
    have hup' := hup
    obtain ⟨xs, o, s, l, -, -, hl, hpc, hst⟩ := hup
    obtain ⟨l', hl', hpc'⟩ := updated_after_update hl hpc hst
    obtain ⟨us, o', vs, m, n, rfl, hus, hn, hback, rfl⟩ :=
      readBack_of_returned hl' hpc' hys hret
    have hzero := hquiet i t us o' vs m n hup' hus hn hback
    rw [myData_of_run hus, hzero]
    exact congrArg BitVec.toInt (BitVec.add_zero _)

/-- What `OwnValues` says about the move at place `n` of the run. -/
def ownValueAt (hz : Nat) (mvs : List Move) (c : Conf) (n : Nat) : Bool :=
  match mvs[n]?, run (move hz) (start simpleBlock1Init) (mvs.take n) with
  | some (.advance i o), some s =>
      match s.calls[i]?, move hz s (.advance i o), c.calls[i]? with
      | some l, some t, some ⟨_, .returned code⟩ =>
          decide (l.pc = .decrement ∨ l.pc = .increment →
            code = t.shared.myData.toInt)
      | _, _, _ => true
  | _, _ => true

theorem ownValues_of_forall {hz : Nat} {mvs : List Move} {c : Conf}
    (h : ∀ n, n < mvs.length → ownValueAt hz mvs c n = true) :
    OwnValues hz mvs c := by
  rintro i t ys k code ⟨xs, o, s, l, hsplit, hxs, hl, hpc, hst⟩ hret
  have hat : mvs[xs.length]? = some (.advance i o) := by
    rw [hsplit, List.getElem?_append_right (Nat.le_refl _), Nat.sub_self]
    rfl
  have htake : mvs.take xs.length = xs := by
    rw [hsplit, List.take_left]
  have hown := h xs.length (List.getElem?_eq_some_iff.mp hat).1
  simp only [ownValueAt, hat, htake, hxs, hl, hst, hret,
    decide_eq_true_iff] at hown
  exact hown hpc

/-- Call 0 adds two units.  Before it returns, call 1 takes one and call 2
adds one. -/
def cancellingRun : List Move :=
  List.flatten
    [ [.issue ⟨wqWakeUp, 2⟩, .issue ⟨wq, 0⟩, .issue ⟨wqWakeUp, 1⟩]
    , [.advance 0 ⟨false, 0⟩]
    , List.replicate 3 (.advance 1 ⟨false, 0⟩)
    , List.replicate 3 (.advance 2 ⟨false, 0⟩)
    , List.replicate 2 (.advance 0 ⟨false, 0⟩) ]

theorem own_values_iff_cancellingRun :
    ∃ c, run (move 100) (start simpleBlock1Init) cancellingRun = some c ∧
      c.calls.map (·.pc) = [.returned 2, .returned 1, .returned 2] ∧
      Undisturbed 100 cancellingRun := by
  let c : Conf := ⟨⟨2, [], 3, 1⟩, [⟨⟨wqWakeUp, 2⟩, .returned 2⟩,
    ⟨⟨wq, 0⟩, .returned 1⟩, ⟨⟨wqWakeUp, 1⟩, .returned 2⟩]⟩
  have hrun : run (move 100) (start simpleBlock1Init) cancellingRun =
      some c := by
    decide +kernel
  have hown : OwnValues 100 cancellingRun c :=
    ownValues_of_forall (by decide +kernel)
  exact ⟨c, hrun, rfl, (own_values_iff hrun).mp hown⟩

/-- Two producers: the second one's update comes before the first one's
return. -/
def overlappingRun : List Move :=
  [ .issue ⟨wqWakeUp, 1⟩, .issue ⟨wqWakeUp, 2⟩, .advance 0 ⟨false, 0⟩,
    .advance 1 ⟨false, 0⟩, .advance 0 ⟨false, 0⟩, .advance 0 ⟨false, 0⟩ ]

/-- The first one returns 3, but its update has left 1. -/
theorem own_values_iff_fails :
    ∃ c, run (move 100) (start simpleBlock1Init) overlappingRun = some c ∧
      c.calls[0]? = some ⟨⟨wqWakeUp, 1⟩, .returned 3⟩ ∧
      ¬ OwnValues 100 overlappingRun c := by
  refine ⟨⟨⟨3, [], 3, 0⟩,
    [⟨⟨wqWakeUp, 1⟩, .returned 3⟩, ⟨⟨wqWakeUp, 2⟩, .wake⟩]⟩,
    by decide +kernel, rfl, ?_⟩
  intro h
  have hup : UpdatesBefore 100 overlappingRun 0
      ⟨⟨1, [], 1, 0⟩, [⟨⟨wqWakeUp, 1⟩, .wake⟩, ⟨⟨wqWakeUp, 2⟩, .increment⟩]⟩
      (overlappingRun.drop 3) :=
    ⟨overlappingRun.take 2, ⟨false, 0⟩, _, _, rfl, rfl, rfl, Or.inr rfl,
      rfl⟩
  have hone := h 0 _ _ ⟨wqWakeUp, 1⟩ 3 hup rfl
  exact absurd hone (by decide)

end EmbeddedSystem.Labs.SimpleBlock1
