import EmbeddedSystem.Labs.SimpleRcuVersions

/-!
# Unloading `simple_rcu`

`simple_rcu_exit` frees the current version and stores `NULL` to `my_data`
without waiting for the readers, while an open file does not keep the module
loaded.  What it frees is read afterwards exactly by the readers that have
dereferenced `my_data` when the `kfree` runs, or that do so between the
`kfree` and the store of `NULL`.  `Drained` says that there is none.

A run that breaks `Drained` leaves a reader with the freed object in its
hands, and that reader cannot return without reading it (`Stuck.step`).
-/

set_option autoImplicit false

namespace EmbeddedSystem.Labs.SimpleRcu

open EmbeddedSystem.Verified
open EmbeddedSystem.Verified.Transition
open EmbeddedSystem.Verified.CallPool

/-! ## `simple_rcu_exit` -/

/-- The next statement of `simple_rcu_exit`; `loaded` is before it is
called. -/
inductive ExitPc where
  | loaded
  | cdevDel
  | unregister
  | test
  | free
  | clear
  | returned
deriving DecidableEq, Repr

/-- The module together with its exit function.  `freed` is what the exit
function has freed. -/
structure Module where
  rcu : Conf
  exitPc : ExitPc
  freed : Option Nat
deriving DecidableEq, Repr

/-- A move of the calls, or the next statement of `simple_rcu_exit`. -/
inductive ModuleMove where
  | call (mv : Move)
  | exit
deriving DecidableEq, Repr

/-- One statement of `simple_rcu_exit`, and what it frees. -/
def simpleRcuExit (g : Rcu) : ExitPc → Option (Rcu × ExitPc × Option Nat)
  | .loaded => some (g, .cdevDel, none)
  | .cdevDel => some (g, .unregister, none)
  | .unregister => some (g, .test, none)
  | .test => some (g, if g.myData = none then .returned else .free, none)
  | .free =>
      match g.myData with
      | none => some (g, .clear, none)
      | some p => some ({ g with slab := g.slab.kfree p }, .clear, some p)
  | .clear => some ({ g with myData := none }, .returned, none)
  | .returned => none

/-- One step of the module. -/
def moduleStep (m : Module) : ModuleMove → Option Module
  | .call mv => (step m.rcu mv).map fun c => { m with rcu := c }
  | .exit =>
      (simpleRcuExit m.rcu.shared m.exitPc).map fun (g, pc, p) =>
        { rcu := { m.rcu with shared := g }
          exitPc := pc
          freed := if p = none then m.freed else p }

/-- The module when it is about to be removed. -/
def unloading (c : Conf) : Module := ⟨c, .loaded, none⟩

/-! ## Reading what was freed -/

/-- The call will read the object at `p`. -/
def holds (p : Nat) : Call → Bool
  | .read r => (r.pc = .firstPrint || r.pc = .secondPrint) && r.old = some p
  | _ => false

/-- The next statement of the call is its `rcu_dereference`. -/
def dereferencing : Call → Bool
  | .read r => r.pc = .dereference
  | _ => false

/-- The move does not read what `simple_rcu_exit` has freed. -/
def NotLate (m : Module) : ModuleMove → Prop
  | .call (.advance i _) =>
      ∀ l ∈ m.rcu.calls[i]?, ∀ p ∈ m.freed, holds p l = false
  | .call (.issue _) => True
  | .exit => True

/-- No reader holds the current version when it is freed, and none gets it
between the `kfree` and the store of `NULL`. -/
def Drained (m : Module) : ModuleMove → Prop
  | .call (.advance i _) =>
      m.exitPc = .clear → ∀ l ∈ m.rcu.calls[i]?, dereferencing l = false
  | .call (.issue _) => True
  | .exit =>
      m.exitPc = .free →
        ∀ p ∈ m.rcu.shared.myData, ∀ l ∈ m.rcu.calls, holds p l = false

/-- No `IOCTL_WRITE` is issued. -/
def ReadsOnly (_ : Module) : ModuleMove → Prop
  | .call (.issue k) => writing (simpleIoctl k) = 0
  | .call (.advance _ _) => True
  | .exit => True

instance (m : Module) : ∀ mv, Decidable (Drained m mv)
  | .call (.advance i _) =>
      inferInstanceAs (Decidable (_ →
        ∀ l ∈ m.rcu.calls[i]?, dereferencing l = false))
  | .call (.issue _) => inferInstanceAs (Decidable True)
  | .exit =>
      inferInstanceAs (Decidable (_ →
        ∀ p ∈ m.rcu.shared.myData, ∀ l ∈ m.rcu.calls, holds p l = false))

instance (m : Module) : ∀ mv, Decidable (NotLate m mv)
  | .call (.advance i _) =>
      inferInstanceAs (Decidable (∀ l ∈ m.rcu.calls[i]?,
        ∀ p ∈ m.freed, holds p l = false))
  | .call (.issue _) => inferInstanceAs (Decidable True)
  | .exit => inferInstanceAs (Decidable True)

instance (m : Module) : ∀ mv, Decidable (ReadsOnly m mv)
  | .call (.issue k) =>
      inferInstanceAs (Decidable (writing (simpleIoctl k) = 0))
  | .call (.advance _ _) => inferInstanceAs (Decidable True)
  | .exit => inferInstanceAs (Decidable True)

/-! ## What the steps can do -/

/-- A step of the module: a new call, a step of a call or a statement of the
exit function. -/
theorem moduleStep_cases {m n : Module} {mv : ModuleMove}
    (h : moduleStep m mv = some n) :
    (∃ k, mv = .call (.issue k) ∧
      n = { m with rcu :=
        ⟨m.rcu.shared, m.rcu.calls ++ [simpleIoctl k]⟩ }) ∨
    (∃ i mem l g l', mv = .call (.advance i mem) ∧
      m.rcu.calls[i]? = some l ∧
      simpleRcuStep m.rcu.shared i l mem = some (g, l') ∧
      n = { m with rcu := ⟨g, m.rcu.calls.set i l'⟩ }) ∨
    ∃ g pc p, mv = .exit ∧
      simpleRcuExit m.rcu.shared m.exitPc = some (g, pc, p) ∧
      n = { rcu := ⟨g, m.rcu.calls⟩
            exitPc := pc
            freed := if p = none then m.freed else p } := by
  cases mv with
  | call mv =>
      simp only [moduleStep, Option.map_eq_some_iff] at h
      obtain ⟨c, hc, hn⟩ := h
      subst hn
      rcases step_cases hc with
        ⟨k, rfl, rfl⟩ | ⟨i, mem, l, g, l', rfl, hl, hbody, rfl⟩
      · exact Or.inl ⟨k, rfl, rfl⟩
      · exact Or.inr (Or.inl ⟨i, mem, l, g, l', rfl, hl, hbody, rfl⟩)
  | exit =>
      simp only [moduleStep, Option.map_eq_some_iff] at h
      obtain ⟨⟨g, pc, p⟩, hexit, hn⟩ := h
      exact Or.inr (Or.inr ⟨g, pc, p, rfl, hexit, hn.symm⟩)

/-- Where no writer is in progress, it is a reader that takes a step. -/
theorem readStep_of_noWrite {calls : List Call} {g g' : Rcu} {i : Nat}
    {l l' : Call} {mem : Option (BitVec 64)}
    (hzero : total writing calls = 0) (hl : calls[i]? = some l)
    (h : simpleRcuStep g i l mem = some (g', l')) :
    ∃ r r', l = .read r ∧ l' = .read r' ∧ ReadStep g i r g' r' := by
  rcases simpleRcuStep_inv h with hread | ⟨w, w', hw, -, hwrite, -⟩
  · exact hread
  · subst hw
    have hle := le_total writing hl
    rw [hwrite.writing] at hle
    omega

/-- A reader comes to hold an object by its `rcu_dereference` only. -/
theorem ReadStep.holds {g g' : Rcu} {i p : Nat} {r r' : ReadCall}
    (h : ReadStep g i r g' r') (hr' : SimpleRcu.holds p (.read r') = true) :
    SimpleRcu.holds p (.read r) = true ∨
      (dereferencing (.read r) = true ∧ g.myData = some p) := by
  cases h with
  | firstPrint q hpc hold =>
      refine Or.inl ?_
      simpa [SimpleRcu.holds, hpc] using hr'
  | dereference q hpc hdata =>
      have hq : q = p := by simpa [SimpleRcu.holds] using hr'
      subst hq
      exact Or.inr ⟨by simp [dereferencing, hpc], hdata⟩
  | _ => simp [SimpleRcu.holds] at hr'

/-- A reader that dereferences the current version holds it then. -/
theorem ReadStep.holds_current {g g' : Rcu} {i p : Nat} {r r' : ReadCall}
    (h : ReadStep g i r g' r') (hder : dereferencing (.read r) = true)
    (hp : g.myData = some p) : SimpleRcu.holds p (.read r') = true := by
  have hpc : r.pc = .dereference := of_decide_eq_true hder
  cases h with
  | dereference q _ hdata =>
      rw [hp, Option.some.injEq] at hdata
      simp [SimpleRcu.holds, hdata]
  | _ => simp_all

/-! ## How far the exit function is -/

/-- What `my_data` and the freed object are at each statement of
`simple_rcu_exit`. -/
def Stage (myData freed : Option Nat) : ExitPc → Prop
  | .loaded => freed = none
  | .cdevDel => freed = none
  | .unregister => freed = none
  | .test => freed = none
  | .free => freed = none ∧ ∃ p, myData = some p
  | .clear => freed = myData ∧ ∃ p, myData = some p
  | .returned => myData = none

/-- The invariant of the runs in which nothing but reads is issued. -/
structure Unloading (m : Module) : Prop where
  noWrite : total writing m.rcu.calls = 0
  stage : Stage m.rcu.shared.myData m.freed m.exitPc

theorem unloading_start {c : Conf} (h : total writing c.calls = 0) :
    Unloading (unloading c) := ⟨h, rfl⟩

theorem Stage.exit {g g' : Rcu} {freed p : Option Nat} {pc pc' : ExitPc}
    (h : Stage g.myData freed pc)
    (hst : simpleRcuExit g pc = some (g', pc', p)) :
    Stage g'.myData (if p = none then freed else p) pc' := by
  cases pc with
  | test =>
      simp only [simpleRcuExit, Option.some.injEq, Prod.mk.injEq] at hst
      obtain ⟨rfl, rfl, rfl⟩ := hst
      cases hdata : g.myData with
      | none => rfl
      | some q => exact ⟨h, q, rfl⟩
  | free =>
      obtain ⟨-, q, hq⟩ := h
      simp only [simpleRcuExit, hq, Option.some.injEq, Prod.mk.injEq] at hst
      obtain ⟨rfl, rfl, rfl⟩ := hst
      exact ⟨rfl, q, rfl⟩
  | clear =>
      cases hst
      rfl
  | returned => cases hst
  | _ =>
      cases hst
      exact h

theorem Unloading.step {m n : Module} {mv : ModuleMove} (h : Unloading m)
    (hreads : ReadsOnly m mv) (hst : moduleStep m mv = some n) :
    Unloading n := by
  have hzero := h.noWrite
  rcases moduleStep_cases hst with
    ⟨k, hmv, hn⟩ | ⟨i, mem, l, g, l', -, hl, hbody, hn⟩ |
      ⟨g, pc, p, -, hexit, hn⟩
  · subst hmv hn
    refine ⟨?_, h.stage⟩
    show total writing (m.rcu.calls ++ [simpleIoctl k]) = 0
    have hnew : writing (simpleIoctl k) = 0 := hreads
    rw [total_append_one, hzero, hnew]
  · subst hn
    obtain ⟨r, r', -, -, hread⟩ := readStep_of_noWrite hzero hl hbody
    refine ⟨?_, ?_⟩
    · have hset := total_set writing l' hl
      have hle := writing_step hbody
      show total writing (m.rcu.calls.set i l') = 0
      omega
    · show Stage g.myData m.freed m.exitPc
      rw [hread.myData]
      exact h.stage
  · subst hn
    exact ⟨hzero, h.stage.exit hexit⟩

/-! ## Drained -/

/-- Nobody holds what `simple_rcu_exit` has freed. -/
def Unheld (m : Module) : Prop :=
  ∀ p ∈ m.freed, ∀ l ∈ m.rcu.calls, holds p l = false

theorem Unheld.notLate {m : Module} (h : Unheld m) (mv : ModuleMove) :
    NotLate m mv := by
  cases mv with
  | exit => trivial
  | call mv =>
      cases mv with
      | issue k => trivial
      | advance i mem =>
          intro l hl p hp
          exact h p hp l (List.mem_of_getElem? hl)

/-- A call that was just issued holds nothing. -/
theorem holds_simpleIoctl (p : Nat) (k : Ioctl) :
    holds p (simpleIoctl k) = false := by
  unfold simpleIoctl
  split
  · rfl
  · split <;> rfl

theorem Unheld.step {m n : Module} {mv : ModuleMove} (h : Unheld m)
    (hm : Unloading m) (hdrained : Drained m mv)
    (hst : moduleStep m mv = some n) : Unheld n := by
  rcases moduleStep_cases hst with
    ⟨k, hmv, hn⟩ | ⟨i, mem, l, g, l', hmv, hl, hbody, hn⟩ |
      ⟨g, pc, p, hmv, hexit, hn⟩
  · subst hmv hn
    intro p hp l hl
    rcases List.mem_append.mp hl with hold | hnew
    · exact h p hp l hold
    · rw [List.mem_singleton.mp hnew]
      exact holds_simpleIoctl p k
  · subst hmv hn
    obtain ⟨r, r', rfl, rfl, hread⟩ :=
      readStep_of_noWrite hm.noWrite hl hbody
    intro p hp u hu
    have hfreed : m.freed = some p := hp
    rcases List.mem_or_eq_of_mem_set hu with hold | hown
    · exact h p hp u hold
    · subst hown
      cases hholds : holds p (.read r') with
      | false => rfl
      | true =>
          rcases hread.holds hholds with hbefore | ⟨hder, hdata⟩
          · have hnot := h p hp _ (List.mem_of_getElem? hl)
            rw [hbefore] at hnot
            cases hnot
          · -- the freed object is still the current one
            have hstage := hm.stage
            rw [hdata, hfreed] at hstage
            cases hpc : m.exitPc with
            | clear =>
                have hnot := hdrained hpc _ hl
                rw [hder] at hnot
                cases hnot
            | _ => simp [hpc, Stage] at hstage
  · subst hmv hn
    have hstage := hm.stage
    cases hpc : m.exitPc with
    | free =>
        rw [hpc] at hexit hstage
        obtain ⟨-, q, hq⟩ := hstage
        simp only [simpleRcuExit, hq, Option.some.injEq,
          Prod.mk.injEq] at hexit
        obtain ⟨rfl, rfl, rfl⟩ := hexit
        intro p hp l hl
        cases hp
        exact hdrained hpc q hq l hl
    | returned =>
        rw [hpc] at hexit
        cases hexit
    | _ =>
        rw [hpc] at hexit
        cases hexit
        exact h

/-! ## Not drained -/

/-- Call `i` holds the object `p`, which `simple_rcu_exit` has freed. -/
def Stuck (i p : Nat) (m : Module) : Prop :=
  m.freed = some p ∧
    ∃ l, m.rcu.calls[i]? = some l ∧ holds p l = true

theorem Unloading.stuck {m n : Module} {mv : ModuleMove} (h : Unloading m)
    (hnot : ¬ Drained m mv) (hst : moduleStep m mv = some n) :
    ∃ i p, Stuck i p n := by
  have hstage := h.stage
  rcases moduleStep_cases hst with
    ⟨k, hmv, -⟩ | ⟨i, mem, l, g, l', hmv, hl, hbody, hn⟩ |
      ⟨g, pc, p, hmv, hexit, hn⟩
  · subst hmv
    exact absurd trivial hnot
  · subst hmv hn
    simp only [Drained, Classical.not_imp, Classical.not_forall] at hnot
    obtain ⟨hpc, u, hu, hder⟩ := hnot
    rw [Option.mem_def, hl, Option.some.injEq] at hu
    subst hu
    rw [hpc] at hstage
    obtain ⟨hfreed, p, hp⟩ := hstage
    obtain ⟨r, r', rfl, rfl, hread⟩ :=
      readStep_of_noWrite h.noWrite hl hbody
    refine ⟨i, p, hfreed.trans hp, _, lookup_set_self hl, ?_⟩
    exact hread.holds_current (by simpa using hder) hp
  · subst hmv hn
    simp only [Drained, Classical.not_imp, Classical.not_forall] at hnot
    obtain ⟨hpc, q, hq, l, hl, hholds⟩ := hnot
    rw [Option.mem_def] at hq
    simp only [hpc, simpleRcuExit, hq, Option.some.injEq,
      Prod.mk.injEq] at hexit
    obtain ⟨rfl, rfl, rfl⟩ := hexit
    obtain ⟨i, hi⟩ := List.getElem?_of_mem hl
    exact ⟨i, q, rfl, l, hi, by simpa using hholds⟩

/-- It stays with the call until the call reads it. -/
theorem Stuck.step {i p : Nat} {m n : Module} {mv : ModuleMove}
    (h : Stuck i p m) (hm : Unloading m) (hlate : NotLate m mv)
    (hst : moduleStep m mv = some n) : Stuck i p n := by
  obtain ⟨hfreed, l, hl, hholds⟩ := h
  rcases moduleStep_cases hst with
    ⟨k, hmv, hn⟩ | ⟨j, mem, u, g, u', hmv, hu, hbody, hn⟩ |
      ⟨g, pc, q, hmv, hexit, hn⟩
  · subst hn
    exact ⟨hfreed, l, lookup_append_old _ hl, hholds⟩
  · subst hmv hn
    by_cases hji : j = i
    · subst hji
      have hnot := hlate l hl p hfreed
      rw [hholds] at hnot
      cases hnot
    · exact ⟨hfreed, l, lookup_set_ne _ hji hl, hholds⟩
  · subst hn
    have hstage := hm.stage
    rw [hfreed] at hstage
    cases hpc : m.exitPc with
    | clear =>
        rw [hpc] at hexit
        cases hexit
        exact ⟨hfreed, l, hl, hholds⟩
    | returned =>
        rw [hpc] at hexit
        cases hexit
    | _ => simp [hpc, Stage] at hstage

/-- A call that holds an object has not returned. -/
theorem not_ended_of_holds {p : Nat} {l : Call} (h : holds p l = true) :
    l.ended = false := by
  cases l with
  | read r =>
      simp only [holds, Bool.and_eq_true, Bool.or_eq_true,
        decide_eq_true_eq] at h
      rcases h.1 with hpc | hpc <;> simp [Call.ended, hpc]
  | write w => cases h
  | invalid => cases h

/-! ## The result -/

/-- Let nothing but reads run beside `simple_rcu_exit`.  If no reader holds
the current version when it is freed and none gets it before `my_data` is
`NULL`, nothing reads the freed version.  In a run that has come to the end
of all its reads, that is also the only way for nothing to read it. -/
theorem notLate_iff_drained {c : Conf} {m : Module} {mvs : List ModuleMove}
    (hnone : total writing c.calls = 0)
    (hrun : run moduleStep (unloading c) mvs = some m)
    (hreads : Along moduleStep ReadsOnly (unloading c) mvs) :
    (Along moduleStep Drained (unloading c) mvs →
        Along moduleStep NotLate (unloading c) mvs) ∧
      (Idle m.rcu → Along moduleStep NotLate (unloading c) mvs →
        Along moduleStep Drained (unloading c) mvs) := by
  constructor
  · intro hdrained
    refine Along.weaken (I := fun m => Unloading m ∧ Unheld m)
      (fun s a t h hC hst => ⟨h.1.step hC.1 hst, h.2.step h.1 hC.2 hst⟩)
      (fun s a t h _ _ => h.2.notLate a)
      ⟨unloading_start hnone, fun p hp => ?_⟩ hrun (hreads.and hdrained)
    cases hp
  · intro hidle hlate
    apply Classical.byContradiction
    intro hnot
    obtain ⟨xs, mv, ys, t, t', hsplit, -, hxs, hbreak, hst, hys⟩ :=
      first_break hrun hnot
    rw [hsplit] at hreads hlate
    have ht : Unloading t :=
      run_induct_along (fun _ _ _ h hC hst => Unloading.step h hC hst)
        (unloading_start hnone) hreads.of_append hxs
    obtain ⟨i, p, hstuck⟩ := ht.stuck hbreak hst
    have hrest := (hreads.rest hxs).and (hlate.rest hxs)
    rw [along_cons_of_step hst] at hrest
    have hend := run_induct_along
      (P := fun m => Unloading m ∧ Stuck i p m)
      (fun _ _ _ h hC hst => ⟨h.1.step hC.1 hst, h.2.step h.1 hC.2 hst⟩)
      ⟨ht.step hrest.1.1 hst, hstuck⟩ hrest.2 hys
    obtain ⟨-, l, hl, hholds⟩ := hend.2
    have hreturned := hidle i l hl
    rw [not_ended_of_holds hholds] at hreturned
    cases hreturned

/-- A reader that has returned before the `kfree`, and one that comes after
the store of `NULL`. -/
def quietUnloadRun : List ModuleMove :=
  List.flatten
    [ .call (.issue ⟨ioctlRead, 0⟩) :: List.replicate 5 (.call (.advance 0 none))
    , List.replicate 6 .exit
    , .call (.issue ⟨ioctlRead, 0⟩) ::
        List.replicate 3 (.call (.advance 1 none)) ]

theorem notLate_iff_drained_quietUnloadRun :
    ∃ m, run moduleStep (unloading (loaded 0)) quietUnloadRun = some m ∧
      m.freed = some 0 ∧
      Along moduleStep NotLate (unloading (loaded 0)) quietUnloadRun := by
  have hend : (run moduleStep (unloading (loaded 0)) quietUnloadRun).map
      (fun m => m.freed) = some (some 0) := by
    decide +kernel
  obtain ⟨m, hrun, hfreed⟩ := Option.map_eq_some_iff.mp hend
  have hall := notLate_iff_drained (c := loaded 0) rfl hrun (by decide +kernel)
  exact ⟨m, hrun, hfreed, hall.1 (by decide +kernel)⟩

/-- The module is removed while a reader sits in its delay. -/
def delayedReadRun : List ModuleMove :=
  List.flatten
    [ .call (.issue ⟨ioctlRead, 0⟩) :: List.replicate 3 (.call (.advance 0 none))
    , List.replicate 6 .exit
    , List.replicate 2 (.call (.advance 0 none)) ]

/-- Its second print reads the freed object. -/
theorem delayedReadRun_late :
    ∃ m, run moduleStep (unloading (loaded 0)) delayedReadRun = some m ∧
      m.freed = some 0 ∧ m.rcu.shared.slab.stale = 1 ∧
      ¬ Along moduleStep NotLate (unloading (loaded 0)) delayedReadRun := by
  have hend : (run moduleStep (unloading (loaded 0)) delayedReadRun).map
      (fun m => (m.freed, m.rcu.shared.slab.stale)) = some (some 0, 1) := by
    decide +kernel
  obtain ⟨m, hrun, hm⟩ := Option.map_eq_some_iff.mp hend
  rw [Prod.mk.injEq] at hm
  exact ⟨m, hrun, hm.1, hm.2, by decide +kernel⟩

end EmbeddedSystem.Labs.SimpleRcu
