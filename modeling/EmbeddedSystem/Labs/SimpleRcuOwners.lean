import EmbeddedSystem.Labs.SimpleRcu

/-!
# Every version of `simple_rcu` has one owner

`Conserved` is the ownership ledger of the heap: a live object is owned once,
by `my_data` or by one writer, and a dead one by nobody.  `SoleOwners` is the
invariant of the runs that meet `LoadsAlone`; it adds that at most one writer
is between its load of `my_data` and its publication, and that such a writer
still holds the current version.

For the other direction, `Doomed p` counts how often `p` was freed or will be
freed by a writer that has loaded it.  That number never falls, and the first
writer that loads `my_data` beside another one lifts it to two.
-/

set_option autoImplicit false

namespace EmbeddedSystem.Labs.SimpleRcu

open EmbeddedSystem.Verified
open EmbeddedSystem.Verified.Transition
open EmbeddedSystem.Verified.CallPool

/-! ## Owners -/

/-- 1 if `my_data` points to `p`. -/
def current (g : Rcu) (p : Nat) : Nat := if g.myData = some p then 1 else 0

/-- 1 if `p` is live. -/
def alive (g : Rcu) (p : Nat) : Nat := if g.slab.live p = true then 1 else 0

/-- 1 if the writer holds `p`: the new version before it is published, the
replaced one afterwards. -/
def owns (p : Nat) : Call → Nat
  | .write w =>
      match w.pc with
      | .store | .loadOld | .assign => if w.new = some p then 1 else 0
      | .synchronize | .gracePeriod _ | .freeOld =>
          if w.old = some p then 1 else 0
      | _ => 0
  | _ => 0

/-- 1 for a writer between its load of `my_data` and its publication. -/
def publishing : Call → Nat
  | .write w => if w.pc = .assign then 1 else 0
  | _ => 0

/-- 1 for a writer that has loaded `p` and will free it. -/
def frees (p : Nat) : Call → Nat
  | .write w =>
      match w.pc with
      | .assign | .synchronize | .gracePeriod _ | .freeOld =>
          if w.old = some p then 1 else 0
      | _ => 0
  | _ => 0

/-- Every object is owned as often as it is live. -/
def Conserved (c : Conf) : Prop :=
  ∀ p, alive c.shared p = current c.shared p + total (owns p) c.calls

/-- A writer whose next statement is its load of `my_data`. -/
def loading : Call → Bool
  | .write w => w.pc = .loadOld
  | _ => false

/-- No writer loads `my_data` while another one is between its load and its
publication. -/
def LoadsAlone (c : Conf) : Move → Prop
  | .issue _ => True
  | .advance i _ =>
      ∀ l ∈ c.calls[i]?, loading l = true → total publishing c.calls = 0

instance (c : Conf) : ∀ mv, Decidable (LoadsAlone c mv)
  | .issue _ => inferInstanceAs (Decidable True)
  | .advance i _ =>
      inferInstanceAs (Decidable (∀ l ∈ c.calls[i]?, loading l = true → _))

/-- The invariant of the runs in which every writer loads alone. -/
structure SoleOwners (c : Conf) : Prop where
  conserved : Conserved c
  freedOnce : ∀ p, c.shared.slab.freeCount p ≤ 1
  published : ∃ p, c.shared.myData = some p
  newVersion : ∀ (i : Nat) (w : WriteCall), c.calls[i]? = some (.write w) →
    w.pc = .loadOld ∨ w.pc = .assign → ∃ p, w.new = some p
  oneWriter : total publishing c.calls ≤ 1
  upToDate : ∀ (i : Nat) (w : WriteCall), c.calls[i]? = some (.write w) →
    w.pc = .assign → w.old = c.shared.myData

theorem loaded_soleOwners (junk : BitVec 64) : SoleOwners (loaded junk) := by
  have hnone : ∀ (i : Nat) (l : Call), (loaded junk).calls[i]? ≠ some l := by
    intro i l hl
    simp [loaded, start] at hl
  refine
    { conserved := ?_
      freedOnce := ?_
      published := ⟨0, rfl⟩
      newVersion := fun i w hl => absurd hl (hnone i _)
      oneWriter := Nat.zero_le 1
      upToDate := fun i w hl => absurd hl (hnone i _) }
  · intro p
    cases p with
    | zero => rfl
    | succ p =>
        have hdead : (loaded junk).shared.slab.live (p + 1) = false := by
          simp only [loaded, start, simpleRcuInit, Slab.live_put,
            Slab.live_touch, Slab.live_kmalloc]
          rfl
        have hother : (loaded junk).shared.myData ≠ some (p + 1) := by
          simp [loaded, start, simpleRcuInit, Slab.fresh, Slab.empty]
        have hzero : alive (loaded junk).shared (p + 1) = 0 := by
          simp [alive, hdead]
        have hnone : current (loaded junk).shared (p + 1) = 0 := by
          simp [current, hother]
        rw [hzero, hnone]
        rfl
  · intro p
    have hzero : (loaded junk).shared.slab.freeCount p = 0 := by
      simp only [loaded, start, simpleRcuInit, Slab.freeCount_put,
        Slab.freeCount_touch, Slab.freeCount_kmalloc]
      rfl
    omega

/-! ## The ledger of one step -/

/-- What a writer's step does to the owners of `p`, given that the version it
publishes replaces the one it has loaded and that what it frees is live. -/
theorem WriteStep.ledger {g g' : Rcu} {w w' : WriteCall}
    (h : WriteStep g w g' w') (hassign : w.pc = .assign → w.old = g.myData)
    (hlive : ∀ p, w.pc = .freeOld → w.old = some p → g.slab.live p = true)
    (p : Nat) :
    alive g' p + owns p (.write w) + current g p =
      alive g p + owns p (.write w') + current g' p := by
  cases h with
  | noMemory hpc => simp [owns, hpc]
  | alloc junk hpc =>
      by_cases hp : p = g.slab.fresh
      · subst hp
        simp [alive, owns, current, hpc, Slab.live_kmalloc, Slab.live_fresh]
      · have hne : ¬ g.slab.fresh = p := fun h => hp h.symm
        simp [alive, owns, current, hpc, Slab.live_kmalloc, hp, hne]
  | oops hpc hnew => simp [owns, hpc, hnew]
  | store q hpc hnew => simp [alive, owns, current, hpc]
  | loadOld hpc => simp [owns, hpc]
  | assign hpc =>
      have hold := hassign hpc
      simp only [alive, owns, current, hpc, hold]
      omega
  | synchronize hpc => simp [owns, hpc]
  | gracePeriod waitFor hpc => simp [owns, hpc]
  | nothingToFree hpc hold => simp [owns, hpc, hold]
  | freeOld q hpc hold =>
      have hq := hlive q hpc hold
      by_cases hp : q = p
      · subst hp
        simp [alive, owns, current, hpc, hold, hq, Slab.live_kfree]
      · simp [alive, owns, current, hpc, hold, hp, Slab.live_kfree]

/-- The step that publishes is the only one that changes `my_data`. -/
theorem WriteStep.myData {g g' : Rcu} {w w' : WriteCall}
    (h : WriteStep g w g' w') :
    g'.myData = g.myData ∨ (w.pc = .assign ∧ g'.myData = w.new) := by
  cases h with
  | assign hpc => exact Or.inr ⟨hpc, rfl⟩
  | _ => exact Or.inl rfl

/-- The step that frees is the only one that changes a free count. -/
theorem WriteStep.freeCount {g g' : Rcu} {w w' : WriteCall}
    (h : WriteStep g w g' w') (p : Nat) :
    g'.slab.freeCount p = g.slab.freeCount p ∨
      (w.pc = .freeOld ∧ w.old = some p ∧ g'.slab = g.slab.kfree p) := by
  cases h with
  | alloc junk hpc => exact Or.inl (Slab.freeCount_kmalloc g.slab junk p)
  | store q hpc hnew => exact Or.inl (by simp)
  | freeOld q hpc hold =>
      by_cases hq : q = p
      · subst hq
        exact Or.inr ⟨hpc, hold, rfl⟩
      · exact Or.inl (Slab.freeCount_kfree_ne g.slab hq)
  | _ => exact Or.inl rfl

/-- Only the load of `my_data` takes a writer before its publication, and it
leaves the writer with the current version in `old`. -/
theorem WriteStep.publishing {g g' : Rcu} {w w' : WriteCall}
    (h : WriteStep g w g' w') (hpc' : w'.pc = .assign) :
    w.pc = .loadOld ∧ w'.old = g'.myData ∧ w'.new = w.new := by
  cases h with
  | loadOld hpc => exact ⟨hpc, rfl, rfl⟩
  | _ => cases hpc'

/-- A writer that has stored its argument has a new version. -/
theorem WriteStep.newVersion {g g' : Rcu} {w w' : WriteCall}
    (h : WriteStep g w g' w')
    (hw : w.pc = .loadOld ∨ w.pc = .assign → ∃ p, w.new = some p)
    (hpc' : w'.pc = .loadOld ∨ w'.pc = .assign) : ∃ p, w'.new = some p := by
  cases h with
  | store p hpc hnew => exact ⟨p, hnew⟩
  | loadOld hpc => exact hw (Or.inl hpc)
  | _ => rcases hpc' with h | h <;> cases h

/-- A call that was just issued owns nothing. -/
theorem simpleIoctl_fresh (k : Ioctl) :
    (∀ p, owns p (simpleIoctl k) = 0) ∧ publishing (simpleIoctl k) = 0 ∧
      ∀ w, simpleIoctl k = .write w → w.pc = .alloc := by
  unfold simpleIoctl
  by_cases hr : k.cmd = ioctlRead
  · rw [if_pos hr]
    exact ⟨fun _ => rfl, rfl, fun w h => by cases h⟩
  · rw [if_neg hr]
    by_cases hw : k.cmd = ioctlWrite
    · rw [if_pos hw]
      refine ⟨fun _ => rfl, rfl, fun w h => ?_⟩
      cases h
      rfl
    · rw [if_neg hw]
      exact ⟨fun _ => rfl, rfl, fun w h => by cases h⟩

/-! ## Whole runs -/

theorem SoleOwners.issue {c : Conf} (h : SoleOwners c) (k : Ioctl) :
    SoleOwners ⟨c.shared, c.calls ++ [simpleIoctl k]⟩ := by
  obtain ⟨howns, hpub, hpc⟩ := simpleIoctl_fresh k
  refine
    { conserved := fun p => ?_
      freedOnce := h.freedOnce
      published := h.published
      newVersion := ?_
      oneWriter := ?_
      upToDate := ?_ }
  · show alive c.shared p = current c.shared p +
      total (owns p) (c.calls ++ [simpleIoctl k])
    rw [total_append_one, howns p]
    exact h.conserved p
  · intro i w hl hw
    rcases lookup_append_cases hl with hold | ⟨-, hnew⟩
    · exact h.newVersion i w hold hw
    · rw [hpc w hnew.symm] at hw
      rcases hw with hw | hw <;> cases hw
  · show total publishing (c.calls ++ [simpleIoctl k]) ≤ 1
    rw [total_append_one, hpub]
    exact h.oneWriter
  · intro i w hl hw
    rcases lookup_append_cases hl with hold | ⟨-, hnew⟩
    · exact h.upToDate i w hold hw
    · rw [hpc w hnew.symm] at hw
      cases hw

theorem SoleOwners.read {c : Conf} (h : SoleOwners c) {i : Nat} {g : Rcu}
    {r r' : ReadCall} (hl : c.calls[i]? = some (.read r))
    (hsame : SameVersions c.shared g) :
    SoleOwners ⟨g, c.calls.set i (.read r')⟩ := by
  have hkeep : ∀ (j : Nat) (w : WriteCall),
      (c.calls.set i (.read r'))[j]? = some (.write w) →
        c.calls[j]? = some (.write w) := by
    intro j w hj
    rcases lookup_set_cases hl hj with ⟨-, hnew⟩ | ⟨-, hold⟩
    · cases hnew
    · exact hold
  refine
    { conserved := fun p => ?_
      freedOnce := fun p => ?_
      published := ?_
      newVersion := fun j w hj hw => h.newVersion j w (hkeep j w hj) hw
      oneWriter := ?_
      upToDate := fun j w hj hw => ?_ }
  · have hset := total_set (owns p) (.read r') hl
    have hold := h.conserved p
    have hnone : owns p (.read r) = 0 ∧ owns p (.read r') = 0 := ⟨rfl, rfl⟩
    show alive g p = current g p + total (owns p) (c.calls.set i (.read r'))
    simp only [alive, current, hsame.live, hsame.myData] at hold ⊢
    omega
  · show g.slab.freeCount p ≤ 1
    rw [hsame.freeCount]
    exact h.freedOnce p
  · show ∃ p, g.myData = some p
    rw [hsame.myData]
    exact h.published
  · have hset := total_set publishing (.read r') hl
    have hone := h.oneWriter
    have hnone : publishing (.read r) = 0 ∧ publishing (.read r') = 0 :=
      ⟨rfl, rfl⟩
    show total publishing (c.calls.set i (.read r')) ≤ 1
    omega
  · show w.old = g.myData
    rw [hsame.myData]
    exact h.upToDate j w (hkeep j w hj) hw

/-- An owned object is live. -/
theorem SoleOwners.live_of_owned {c : Conf} (h : SoleOwners c) {p : Nat}
    (hown : 0 < current c.shared p + total (owns p) c.calls) :
    c.shared.slab.live p = true := by
  have hcons := h.conserved p
  by_cases hlive : c.shared.slab.live p = true
  · exact hlive
  · have hzero : alive c.shared p = 0 := by
      simp [alive, hlive]
    omega

/-- What a writer frees is live: it is the owner. -/
theorem SoleOwners.live_of_frees {c : Conf} (h : SoleOwners c) {i p : Nat}
    {w : WriteCall} (hl : c.calls[i]? = some (.write w))
    (hpc : w.pc = .freeOld) (hold : w.old = some p) :
    c.shared.slab.live p = true := by
  have hone : owns p (.write w) = 1 := by
    simp [owns, hpc, hold]
  have hle := le_total (owns p) hl
  exact h.live_of_owned (by omega)

theorem SoleOwners.write {c : Conf} (h : SoleOwners c) {i : Nat} {g : Rcu}
    {w w' : WriteCall} (hl : c.calls[i]? = some (.write w))
    (halone : w.pc = .loadOld → total publishing c.calls = 0)
    (hst : WriteStep c.shared w g w') :
    SoleOwners ⟨g, c.calls.set i (.write w')⟩ := by
  have hassign : w.pc = .assign → w.old = c.shared.myData :=
    h.upToDate i w hl
  have hlive : ∀ p, w.pc = .freeOld → w.old = some p →
      c.shared.slab.live p = true :=
    fun p hpc hold => h.live_of_frees hl hpc hold
  refine
    { conserved := fun p => ?_
      freedOnce := fun p => ?_
      published := ?_
      newVersion := ?_
      oneWriter := ?_
      upToDate := ?_ }
  · have hledger := hst.ledger hassign hlive p
    have hset := total_set (owns p) (.write w') hl
    have hcons := h.conserved p
    show alive g p = current g p + total (owns p) (c.calls.set i (.write w'))
    omega
  · show g.slab.freeCount p ≤ 1
    rcases hst.freeCount p with hsame | ⟨hpc, hold, hfree⟩
    · rw [hsame]
      exact h.freedOnce p
    · have hp := hlive p hpc hold
      have hself := Slab.freeCount_kfree_self (Slab.lt_fresh_of_live hp)
      have hzero := Slab.freeCount_of_live hp
      rw [hfree]
      omega
  · show ∃ p, g.myData = some p
    rcases hst.myData with hsame | ⟨hpc, hnew⟩
    · rw [hsame]
      exact h.published
    · rw [hnew]
      exact h.newVersion i w hl (Or.inr hpc)
  · intro j u hj hu
    rcases lookup_set_cases hl hj with ⟨-, hown⟩ | ⟨-, hold⟩
    · cases hown
      exact hst.newVersion (h.newVersion i w hl) hu
    · exact h.newVersion j u hold hu
  · have hset := total_set publishing (.write w') hl
    have hone := h.oneWriter
    show total publishing (c.calls.set i (.write w')) ≤ 1
    by_cases hpc' : w'.pc = .assign
    · have hzero := halone (hst.publishing hpc').1
      have hle : publishing (.write w') ≤ 1 := by
        simp [publishing, hpc']
      omega
    · have hnone : publishing (.write w') = 0 := by
        simp [publishing, hpc']
      omega
  · intro j u hj hu
    show u.old = g.myData
    rcases lookup_set_cases hl hj with ⟨-, hown⟩ | ⟨hij, hold⟩
    · cases hown
      exact (hst.publishing hu).2.1
    · rcases hst.myData with hsame | ⟨hpc, -⟩
      · rw [hsame]
        exact h.upToDate j u hold hu
      · -- two writers would be before their publication
        have htwo := add_le_total publishing hij hl hold
        have hone := h.oneWriter
        have hw : publishing (.write w) = 1 := by
          simp [publishing, hpc]
        have hu' : publishing (.write u) = 1 := by
          simp [publishing, hu]
        omega

theorem SoleOwners.step {c d : Conf} {mv : Move} (h : SoleOwners c)
    (halone : LoadsAlone c mv) (hst : SimpleRcu.step c mv = some d) :
    SoleOwners d := by
  rcases step_cases hst with
    ⟨k, -, hd⟩ | ⟨i, mem, l, g, l', hmv, hl, hbody, hd⟩
  · rw [hd]
    exact h.issue k
  · rw [hd]
    rcases simpleRcuStep_cases hbody with
      ⟨r, r', hr, hr', hsame⟩ | ⟨w, w', hw, hw', hwrite⟩
    · rw [hr']
      rw [hr] at hl
      exact h.read hl hsame
    · rw [hw']
      rw [hw] at hl
      rw [hmv] at halone
      exact h.write hl (fun hpc => halone _ hl (decide_eq_true hpc)) hwrite

/-! ## Two writers with the same version -/

/-- `p` was freed twice, or will be when the writers that have loaded it go
on. -/
structure Doomed (p : Nat) (c : Conf) : Prop where
  known : p < c.shared.slab.fresh
  twice : 2 ≤ c.shared.slab.freeCount p + total (frees p) c.calls

/-- A writer that has loaded `p` keeps it until it frees it. -/
theorem WriteStep.frees_le {g g' : Rcu} {w w' : WriteCall} {p : Nat}
    (h : WriteStep g w g' w') (hp : p < g.slab.fresh) :
    g.slab.freeCount p + frees p (.write w) ≤
      g'.slab.freeCount p + frees p (.write w') := by
  cases h with
  | noMemory hpc => simp [frees, hpc]
  | alloc junk hpc => simp [frees, hpc]
  | oops hpc hnew => simp [frees, hpc]
  | store q hpc hnew => simp [frees, hpc]
  | loadOld hpc => simp [frees, hpc]
  | assign hpc => simp [frees, hpc]
  | synchronize hpc => simp [frees, hpc]
  | gracePeriod waitFor hpc => simp [frees, hpc]
  | nothingToFree hpc hold => simp [frees, hpc, hold]
  | freeOld q hpc hold =>
      by_cases hq : q = p
      · subst hq
        simp [frees, hpc, hold, Slab.freeCount_kfree_self hp]
      · simp [frees, hpc, hold, hq, Slab.freeCount_kfree_ne]

theorem WriteStep.fresh_le {g g' : Rcu} {w w' : WriteCall}
    (h : WriteStep g w g' w') : g.slab.fresh ≤ g'.slab.fresh := by
  cases h with
  | alloc junk hpc => simp
  | store q hpc hnew => simp
  | freeOld q hpc hold => simp
  | _ => exact Nat.le_refl _

theorem Doomed.step {p : Nat} {c d : Conf} {mv : Move} (h : Doomed p c)
    (hst : SimpleRcu.step c mv = some d) : Doomed p d := by
  have htwice := h.twice
  rcases step_cases hst with
    ⟨k, -, hd⟩ | ⟨i, mem, l, g, l', -, hl, hbody, hd⟩
  · rw [hd]
    refine ⟨h.known, ?_⟩
    show 2 ≤ c.shared.slab.freeCount p +
      total (frees p) (c.calls ++ [simpleIoctl k])
    rw [total_append_one]
    omega
  · rw [hd]
    have hset := total_set (frees p) l' hl
    rcases simpleRcuStep_cases hbody with
      ⟨r, r', hr, hr', hsame⟩ | ⟨w, w', hw, hw', hwrite⟩
    · have hnone : frees p l = 0 ∧ frees p l' = 0 := by
        rw [hr, hr']
        exact ⟨rfl, rfl⟩
      refine ⟨?_, ?_⟩
      · show p < g.slab.fresh
        rw [hsame.fresh]
        exact h.known
      · show 2 ≤ g.slab.freeCount p + total (frees p) (c.calls.set i l')
        rw [hsame.freeCount]
        omega
    · have hle := hwrite.frees_le h.known
      rw [← hw, ← hw'] at hle
      refine ⟨Nat.lt_of_lt_of_le h.known hwrite.fresh_le, ?_⟩
      show 2 ≤ g.slab.freeCount p + total (frees p) (c.calls.set i l')
      omega

/-- A writer that is about to publish. -/
theorem exists_publishing {calls : List Call}
    (h : total publishing calls ≠ 0) :
    ∃ (j : Nat) (u : WriteCall), calls[j]? = some (.write u) ∧
      u.pc = .assign := by
  obtain ⟨j, m, hm, hpub⟩ :=
    exists_of_total_pos publishing (Nat.pos_of_ne_zero h)
  cases m with
  | read r => cases hpub
  | invalid => cases hpub
  | write u =>
      refine ⟨j, u, hm, ?_⟩
      by_cases hu : u.pc = .assign
      · exact hu
      · simp [publishing, hu] at hpub

/-- Writer `i` loads the version that writer `j` has loaded and not replaced
yet. -/
theorem doomed_of_both {c : Conf} {i j p : Nat} {w u : WriteCall}
    (hij : i ≠ j) (hl : c.calls[i]? = some (.write w))
    (hm : c.calls[j]? = some (.write u)) (hw : w.pc = .assign)
    (hu : u.pc = .assign) (hwold : w.old = some p) (huold : u.old = some p)
    (hknown : p < c.shared.slab.fresh) : Doomed p c := by
  have hfirst : frees p (.write w) = 1 := by
    simp [frees, hw, hwold]
  have hsecond : frees p (.write u) = 1 := by
    simp [frees, hu, huold]
  have hsum := add_le_total (frees p) hij hl hm
  exact ⟨hknown, by omega⟩

/-- A writer that loads `my_data` beside another one that has not published
yet dooms the version both of them now hold. -/
theorem SoleOwners.doomed {c d : Conf} {mv : Move} (h : SoleOwners c)
    (hnot : ¬ LoadsAlone c mv) (hst : SimpleRcu.step c mv = some d) :
    ∃ p, Doomed p d := by
  cases mv with
  | issue k => exact absurd trivial hnot
  | advance i mem =>
      simp only [LoadsAlone, Classical.not_forall] at hnot
      obtain ⟨l, hl, hload, hbusy⟩ := hnot
      cases l with
      | read r => cases hload
      | invalid => cases hload
      | write w =>
          have hpc : w.pc = .loadOld := of_decide_eq_true hload
          have hbody : simpleRcuStep c.shared i (.write w) mem =
              some (c.shared, .write
                { w with old := c.shared.myData, pc := .assign }) := by
            simp [simpleRcuStep, writeStep, hpc]
          have hstep : SimpleRcu.step c (.advance i mem) = _ :=
            step_advance hl hbody
          rw [hstep, Option.some.injEq] at hst
          obtain ⟨j, u, hm, hu⟩ := exists_publishing hbusy
          have hij : i ≠ j := by
            intro heq
            rw [Option.mem_def, heq, hm, Option.some.injEq] at hl
            cases hl
            rw [hu] at hpc
            cases hpc
          obtain ⟨p, hp⟩ := h.published
          have hcur : current c.shared p = 1 := by
            simp [current, hp]
          have hlive := h.live_of_owned (p := p) (by omega)
          refine ⟨p, ?_⟩
          subst hst
          apply doomed_of_both hij (lookup_set_self hl)
            (by rw [List.getElem?_set_ne hij]; exact hm) rfl hu hp
          · rw [h.upToDate j u hm hu]
            exact hp
          · exact Slab.lt_fresh_of_live hlive

/-! ## The result -/

/-- The call is not in progress any more. -/
def Call.ended : Call → Bool
  | .read r => r.pc = .returned
  | .write w => w.pc = .returned || w.pc = .oops
  | .invalid => true

/-- No ioctl is in progress. -/
def Idle (c : Conf) : Prop :=
  ∀ (i : Nat) (l : Call), c.calls[i]? = some l → l.ended = true

/-- No object was freed twice, and when no ioctl is in progress the version
that `my_data` points to is the only object that is not freed. -/
structure FreedOnce (c : Conf) : Prop where
  freedOnce : ∀ p, c.shared.slab.freeCount p ≤ 1
  onlyCurrent : Idle c → ∃ p, c.shared.myData = some p ∧
    ∀ q, c.shared.slab.live q = true ↔ q = p

/-- A call that has ended owns nothing and frees nothing. -/
theorem Call.ended_weights {l : Call} (h : l.ended = true) (p : Nat) :
    owns p l = 0 ∧ frees p l = 0 := by
  cases l with
  | read r => exact ⟨rfl, rfl⟩
  | invalid => exact ⟨rfl, rfl⟩
  | write w =>
      simp only [Call.ended, Bool.or_eq_true, decide_eq_true_eq] at h
      rcases h with hpc | hpc <;> simp [owns, frees, hpc]

theorem SoleOwners.toFreedOnce {c : Conf} (h : SoleOwners c) : FreedOnce c := by
  refine ⟨h.freedOnce, fun hidle => ?_⟩
  obtain ⟨p, hp⟩ := h.published
  refine ⟨p, hp, fun q => ?_⟩
  have hnone : total (owns q) c.calls = 0 :=
    total_eq_zero (owns q) fun i l hl => (Call.ended_weights (hidle i l hl) q).1
  have hcons := h.conserved q
  simp only [alive, current, hp, hnone, Option.some.injEq] at hcons
  constructor
  · intro hq
    by_cases hqp : q = p
    · exact hqp
    · rw [if_pos hq, if_neg (fun h => hqp h.symm)] at hcons
      omega
  · intro hq
    by_cases hlive : c.shared.slab.live q = true
    · exact hlive
    · rw [if_neg hlive, if_pos hq.symm] at hcons
      omega

/-- In a run in which every writer loads `my_data` alone, no object is freed
twice, and whenever no ioctl is in progress the current version is the only
object not freed.  A run in which some writer does not load alone has freed
an object twice by the time all of its ioctls have ended. -/
theorem freedOnce_iff_loadsAlone {junk : BitVec 64} {c : Conf}
    {mvs : List Move} (hrun : run step (loaded junk) mvs = some c) :
    (Along step LoadsAlone (loaded junk) mvs →
        Throughout step FreedOnce (loaded junk) mvs) ∧
      (Idle c → FreedOnce c → Along step LoadsAlone (loaded junk) mvs) := by
  have hinv : ∀ xs t, run step (loaded junk) xs = some t →
      Along step LoadsAlone (loaded junk) xs → SoleOwners t := by
    intro xs t hxs halone
    exact run_induct_along (fun _ _ _ h hC hst => SoleOwners.step h hC hst)
      (loaded_soleOwners junk) halone hxs
  constructor
  · intro halone xs ys t hsplit hxs
    rw [hsplit] at halone
    exact (hinv xs t hxs halone.of_append).toFreedOnce
  · intro hidle honce
    apply Classical.byContradiction
    intro hnot
    obtain ⟨xs, mv, ys, t, t', -, halone, hxs, hbreak, hst, hys⟩ :=
      first_break hrun hnot
    obtain ⟨p, hdoom⟩ := (hinv xs t hxs halone).doomed hbreak hst
    have hend : Doomed p c :=
      run_induct (fun _ _ _ h hst => Doomed.step h hst) hdoom hys
    have hzero : total (frees p) c.calls = 0 :=
      total_eq_zero (frees p) fun i l hl =>
        (Call.ended_weights (hidle i l hl) p).2
    have htwice := hend.twice
    have hle := honce.freedOnce p
    omega

/-- Two writers, one after the other. -/
def inTurnRun : List Move :=
  List.flatten
    [ .issue ⟨ioctlWrite, 1⟩ :: List.replicate 7 (.advance 0 (some 9))
    , .issue ⟨ioctlWrite, 2⟩ :: List.replicate 7 (.advance 1 (some 9)) ]

theorem freedOnce_iff_loadsAlone_inTurnRun :
    ∃ c, run step (loaded 0) inTurnRun = some c ∧ FreedOnce c := by
  have hsome : (run step (loaded 0) inTurnRun).isSome = true := by
    decide +kernel
  obtain ⟨c, hrun⟩ := Option.isSome_iff_exists.mp hsome
  have hall := (freedOnce_iff_loadsAlone hrun).1 (by decide +kernel)
  exact ⟨c, hrun, hall inTurnRun [] c (List.append_nil _).symm hrun⟩

/-- Two writers load the same version before either of them publishes. -/
def abreastRun : List Move :=
  List.flatten
    [ [.issue ⟨ioctlWrite, 1⟩, .issue ⟨ioctlWrite, 2⟩]
    , List.replicate 3 (.advance 0 (some 9))
    , List.replicate 7 (.advance 1 (some 9))
    , List.replicate 4 (.advance 0 (some 9)) ]

/-- The version they both loaded is freed twice, and the one that the first
of them to publish had allocated is never freed. -/
theorem abreastRun_freesTwice :
    ∃ c, run step (loaded 0) abreastRun = some c ∧
      c.shared.slab.freeCount 0 = 2 ∧ Idle c ∧
      c.shared.myData = some 1 ∧ c.shared.slab.live 2 = true := by
  have hend : (run step (loaded 0) abreastRun).map (fun c =>
      (c.shared.slab.freeCount 0, c.calls.all Call.ended, c.shared.myData,
        c.shared.slab.live 2)) = some (2, true, some 1, true) := by
    decide +kernel
  obtain ⟨c, hrun, hc⟩ := Option.map_eq_some_iff.mp hend
  simp only [Prod.mk.injEq] at hc
  refine ⟨c, hrun, hc.1, ?_, hc.2.2.1, hc.2.2.2⟩
  intro i l hl
  exact List.all_eq_true.mp hc.2.1 l (List.mem_of_getElem? hl)

end EmbeddedSystem.Labs.SimpleRcu
