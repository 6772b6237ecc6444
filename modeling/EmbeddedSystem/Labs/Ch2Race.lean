import EmbeddedSystem.Labs.Ch2Calculator
import EmbeddedSystem.Verified.SharedCell

/-!
# The calculator of `ch2_mod_202111360.c`, used by several programs at once

`ch2_ioctl` takes no lock.  `result += (long)arg` loads `result` and stores
it, and the `printk` and the `return` behind it load it again, so the calls of
other programs may fall between.

Every value that is seen is what some of the operations come to, in the order
in which they were stored; an operation that was computed from an old value
takes back what was stored since (`values_explained`).
-/

set_option autoImplicit false

namespace EmbeddedSystem.Labs.Ch2Calculator

open EmbeddedSystem.Verified
open EmbeddedSystem.Verified.Transition
open EmbeddedSystem.Verified.CallPool
open EmbeddedSystem.Verified.SharedCell

/-! ## `ch2_ioctl` in steps -/

/-- The next statement of a `ch2_ioctl`; `start` is the statement that changes
`result`, and `store` its second half. -/
inductive Pc where
  | start
  | store (loaded : BitVec 64)
  | print
  | ret
  | returned (v : BitVec 64)
  | refused
deriving DecidableEq, Repr

/-- A call of `ch2_ioctl`: what it computes, and what its `printk` shows. -/
structure Call where
  op : Option Op
  pc : Pc
  printed : Option (BitVec 64)
deriving DecidableEq, Repr

/-- The arguments of `ch2_ioctl`. -/
structure Ioctl where
  cmd : Nat
  arg : BitVec 64
deriving DecidableEq, Repr

/-- The cases of the `switch`. -/
def enter (k : Ioctl) : Call :=
  if k.cmd = ch2Get then ⟨none, .print, none⟩
  else if k.cmd = ch2Set then ⟨some (.set k.arg), .start, none⟩
  else if k.cmd = ch2Add then ⟨some (.add k.arg), .start, none⟩
  else if k.cmd = ch2Mul then ⟨some (.mul k.arg), .start, none⟩
  else ⟨none, .refused, none⟩

/-- What an operation makes of a value. -/
def apply (v : BitVec 64) (op : Op) : BitVec 64 := (ioctl v op.cmd op.arg).1

/-- `result`, and the operations that were stored in it. -/
abbrev Ch2 := Cell (BitVec 64) Op

/-- One step of `ch2_ioctl`. -/
def ch2IoctlStep (g : Ch2) (_ : Nat) (l : Call) (_ : Unit) :
    Option (Ch2 × Call) :=
  match l.op, l.pc with
  | some (.set arg), .start =>
      some (⟨arg, g.stores ++ [.set arg]⟩, { l with pc := .print })
  | some _, .start => some (g, { l with pc := .store g.value })
  | some op, .store v =>
      some (⟨apply v op, g.stores ++ [op]⟩, { l with pc := .print })
  | _, .print => some (g, { l with printed := some g.value, pc := .ret })
  | _, .ret => some (g, { l with pc := .returned g.value })
  | _, _ => none

abbrev Conf := CallPool.Conf Ch2 Call

abbrev Move := CallPool.Move Ioctl Unit

def step : Conf → Move → Option Conf := CallPool.step enter ch2IoctlStep

/-- The module right after it was loaded. -/
def loaded : Conf := CallPool.start ⟨ch2Init, []⟩

/-! ## The discipline of the cell -/

/-- The values that a call has loaded. -/
def known (l : Call) : List (BitVec 64) :=
  l.printed.toList ++
    match l.pc with
    | .store v => [v]
    | .returned v => [v]
    | _ => []

/-- What a call is about to store. -/
def next (l : Call) : Option (BitVec 64 × Op) :=
  match l.op, l.pc with
  | some (.set arg), .start => some (arg, .set arg)
  | some op, .store v => some (apply v op, op)
  | _, _ => none

/-- The steps of `ch2_ioctl`, one constructor for each way through it. -/
inductive Step (g : Ch2) (l : Call) : Ch2 → Call → Prop where
  | set (arg : BitVec 64) (hop : l.op = some (.set arg))
      (hpc : l.pc = .start) :
      Step g l ⟨arg, g.stores ++ [.set arg]⟩ { l with pc := .print }
  | load (op : Op) (hop : l.op = some op) (hset : ∀ arg, op ≠ .set arg)
      (hpc : l.pc = .start) : Step g l g { l with pc := .store g.value }
  | store (op : Op) (v : BitVec 64) (hop : l.op = some op)
      (hpc : l.pc = .store v) :
      Step g l ⟨apply v op, g.stores ++ [op]⟩ { l with pc := .print }
  | print (hpc : l.pc = .print) :
      Step g l g { l with printed := some g.value, pc := .ret }
  | ret (hpc : l.pc = .ret) :
      Step g l g { l with pc := .returned g.value }

theorem ch2IoctlStep_step {g g' : Ch2} {i : Nat} {l l' : Call} {o : Unit}
    (h : ch2IoctlStep g i l o = some (g', l')) : Step g l g' l' := by
  unfold ch2IoctlStep at h
  split at h
  case h_1 arg hop hpc =>
    cases h
    exact .set arg hop hpc
  case h_2 op hset hop hpc =>
    cases h
    exact .load op hop hset hpc
  case h_3 op v hop hpc =>
    cases h
    exact .store op v hop hpc
  case h_4 hpc =>
    cases h
    exact .print hpc
  case h_5 hpc =>
    cases h
    exact .ret hpc
  case h_6 => cases h

theorem mem_known {l : Call} {v : BitVec 64} :
    v ∈ known l ↔
      l.printed = some v ∨ l.pc = .store v ∨ l.pc = .returned v := by
  unfold known
  rw [List.mem_append, Option.mem_toList]
  cases l.pc <;> simp [eq_comm]

theorem next_eq_none {l : Call} (hstart : l.pc ≠ .start)
    (hstore : ∀ v, l.pc ≠ .store v) : next l = none := by
  unfold next
  split
  case h_1 hpc => exact absurd hpc hstart
  case h_2 v _ hpc => exact absurd hpc (hstore v)
  case h_3 => rfl

theorem Step.stored {g g' : Ch2} {l l' : Call} (h : Step g l g' l') :
    g' = stored next g l := by
  unfold SharedCell.stored
  cases h with
  | set arg hop hpc =>
      unfold next
      rw [hop, hpc]
  | load op hop hset hpc =>
      unfold next
      rw [hop, hpc]
      cases op with
      | set arg => exact absurd rfl (hset arg)
      | _ => rfl
  | store op v hop hpc =>
      unfold next
      rw [hop, hpc]
      cases op <;> rfl
  | print hpc =>
      rw [next_eq_none (by rw [hpc]; exact nofun) (by rw [hpc]; exact nofun)]
  | ret hpc =>
      rw [next_eq_none (by rw [hpc]; exact nofun) (by rw [hpc]; exact nofun)]

theorem Step.loads {g g' : Ch2} {l l' : Call} (h : Step g l g' l') :
    ∀ v ∈ known l', v ∈ g.value :: known l := by
  intro v hv
  rw [mem_known] at hv
  rw [List.mem_cons, mem_known]
  cases h with
  | set arg hop hpc | store op w hop hpc =>
      rcases hv with hprinted | hpc | hpc
      · exact Or.inr (Or.inl hprinted)
      · cases hpc
      · cases hpc
  | load op hop hset hpc =>
      rcases hv with hprinted | hpc | hpc
      · exact Or.inr (Or.inl hprinted)
      · cases hpc
        exact Or.inl rfl
      · cases hpc
  | ret hpc =>
      rcases hv with hprinted | hpc | hpc
      · exact Or.inr (Or.inl hprinted)
      · cases hpc
      · cases hpc
        exact Or.inl rfl
  | print hpc =>
      rcases hv with hprinted | hpc | hpc
      · cases hprinted
        exact Or.inl rfl
      · cases hpc
      · cases hpc

theorem discipline :
    Discipline apply known next enter ch2IoctlStep where
  fresh := by
    intro k
    unfold enter
    split
    · rfl
    split
    · rfl
    split
    · rfl
    split <;> rfl
  stores := fun _ _ _ _ _ _ h => (ch2IoctlStep_step h).stored
  loads := fun _ _ _ _ _ _ h => (ch2IoctlStep_step h).loads
  computes := by
    intro v l x hx
    unfold next at hx
    split at hx
    case h_1 =>
      cases hx
      exact ⟨v, List.mem_cons_self, rfl⟩
    case h_2 op w hop hpc =>
      cases hx
      refine ⟨w, List.mem_cons_of_mem v ?_, rfl⟩
      unfold known
      rw [hpc]
      exact List.mem_append_right _ List.mem_cons_self
    case h_3 => cases hx

/-! ## What is stored -/

/-- Call `l` has stored the result of `op`. -/
def performed (op : Op) (l : Call) : Nat :=
  match l.pc with
  | .start => 0
  | .store _ => 0
  | _ => if l.op = some op then 1 else 0

theorem performed_enter (op : Op) (k : Ioctl) : performed op (enter k) = 0 := by
  unfold enter
  split
  · rfl
  split
  · rfl
  split
  · rfl
  split <;> rfl

theorem Step.performed {g g' : Ch2} {l l' : Call} (h : Step g l g' l')
    (op : Op) :
    g'.stores.count op + Ch2Calculator.performed op l =
      g.stores.count op + Ch2Calculator.performed op l' := by
  unfold Ch2Calculator.performed
  cases h with
  | set arg hop hpc =>
      rw [List.count_append, List.count_singleton, hpc, hop]
      simp
  | load op hop hset hpc => rw [hpc]
  | store op v hop hpc =>
      rw [List.count_append, List.count_singleton, hpc, hop]
      simp
  | print hpc => rw [hpc]
  | ret hpc => rw [hpc]

/-- Every operation is stored once by every call that performs it. -/
def OnceEach (c : Conf) : Prop :=
  ∀ op, c.shared.stores.count op = total (performed op) c.calls

theorem OnceEach.step {c d : Conf} {mv : Move} (h : OnceEach c)
    (hst : Ch2Calculator.step c mv = some d) : OnceEach d := by
  intro op
  have hnow := h op
  rcases step_cases hst with ⟨k, -, rfl⟩ | ⟨i, o, l, g, l', -, hl, hb, rfl⟩
  · rw [total_append_one, performed_enter]
    exact hnow
  · have hstep := (ch2IoctlStep_step hb).performed op
    have htotal := total_set (performed op) l' hl
    show g.stores.count op = total (performed op) (c.calls.set i l')
    omega

theorem perform_eq_foldl (v : BitVec 64) (ops : List Op) :
    perform v ops = ops.foldl apply v := by
  induction ops generalizing v with
  | nil => rfl
  | cons op ops ih => exact ih (apply v op)

/-! ## The result -/

/-- `result` is what all stored operations come to. -/
def Complete (c : Conf) : Prop :=
  c.shared.value = perform ch2Init c.shared.stores

/-- The next step stores nothing that was computed from an old value. -/
def UpToDate : Conf → Move → Prop := Undisturbed apply next

instance (c : Conf) (mv : Move) : Decidable (UpToDate c mv) :=
  inferInstanceAs (Decidable (Undisturbed apply next c mv))

/-- Every call of `CH2_SET`, `CH2_ADD` and `CH2_MUL` stores its operation once.
What is in `result`, what a `printk` shows and what a call returns is what some
of the stored operations come to, one after another in the order of their
stores.  `result` is what all of them come to, throughout a run, if and only
if no call stores what it computed from an old value, unless that makes no
difference. -/
theorem values_explained {c : Conf} {mvs : List Move}
    (hrun : run step loaded mvs = some c) :
    (∀ op, c.shared.stores.count op = total (performed op) c.calls) ∧
    (∃ ops : List Op, ops.Sublist c.shared.stores ∧
      c.shared.value = perform ch2Init ops) ∧
    (∀ (i : Nat) (l : Call) (v : BitVec 64), c.calls[i]? = some l →
      l.printed = some v ∨ l.pc = .returned v →
      ∃ ops : List Op, ops.Sublist c.shared.stores ∧
        v = perform ch2Init ops) ∧
    (Throughout step Complete loaded mvs ↔ Along step UpToDate loaded mvs) := by
  have honce : OnceEach c :=
    run_induct (fun _ _ _ h hst => OnceEach.step h hst) (fun _ => rfl) hrun
  have hexplained := Explained.run discipline hrun
  refine ⟨honce, ?_, fun i l v hl hv => ?_, ?_⟩
  · obtain ⟨ops, hops, hvalue⟩ := hexplained.value
    exact ⟨ops, hops, hvalue.trans (perform_eq_foldl _ _).symm⟩
  · have hknown : v ∈ known l := by
      rw [mem_known]
      exact hv.imp_right Or.inr
    obtain ⟨ops, hops, hvalue⟩ := hexplained.known i l hl v hknown
    exact ⟨ops, hops, hvalue.trans (perform_eq_foldl _ _).symm⟩
  · have hiff := inSequence_iff_undisturbed discipline
      (show InSequence apply ch2Init loaded from rfl) hrun
    have hsame : (Complete : Conf → Prop) = InSequence apply ch2Init := by
      funext c
      unfold Complete InSequence
      rw [perform_eq_foldl]
    rw [hsame]
    exact hiff

/-- `CH2_SET` 200, and two calls of `CH2_ADD` at once. -/
def overlapRun : List Move :=
  [ .issue ⟨ch2Set, 200⟩, .issue ⟨ch2Add, 300⟩, .issue ⟨ch2Add, 5⟩
  , .advance 0 (), .advance 1 (), .advance 2 (), .advance 1 ()
  , .advance 2 () ]

/-- The second one takes the first one back. -/
theorem values_explained_overlapRun :
    ∃ c, run step loaded overlapRun = some c ∧ c.shared.value = 205 ∧
      perform ch2Init c.shared.stores = 505 ∧
      ¬ Throughout step Complete loaded overlapRun := by
  have hend : (run step loaded overlapRun).map
      (fun c => (c.shared.value, perform ch2Init c.shared.stores)) =
        some (205, 505) := by
    decide +kernel
  have hout : ¬ Along step UpToDate loaded overlapRun := by decide +kernel
  obtain ⟨c, hrun, hc⟩ := Option.map_eq_some_iff.mp hend
  rw [Prod.mk.injEq] at hc
  have hiff := (values_explained hrun).2.2.2
  exact ⟨c, hrun, hc.1, hc.2, fun hall => hout (hiff.mp hall)⟩

end EmbeddedSystem.Labs.Ch2Calculator
