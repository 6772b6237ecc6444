import EmbeddedSystem.Verified.CallPool
import EmbeddedSystem.Verified.Long
import EmbeddedSystem.Verified.WaitQueue

/-!
# The unit counter of `simple_block_2.c`

Producers add units to `my_data` under `my_lock` and wake the wait queue;
consumers wait until `my_data > 0` and then, in a later critical section, take
one unit.  Every ioctl is a call of a `CallPool`; the wait's steps, the
critical section, the wake-up and the read of `my_data` in the `return`
statement are its atomic steps.

The wait tests `my_data` outside the lock and nothing tests it again, so what
a consumer saw is no reservation.  A consumer that has left its wait and has
not decremented yet is counted by `pending`.  As long as every consumer that
leaves its wait does so while `pending < my_data` (`Reserved`), the counter
stays non-negative; as soon as one does not, the consumers in flight can
drive it to -1 all by themselves (`data_nonneg_of_reserved`).
-/

set_option autoImplicit false

namespace EmbeddedSystem.Labs.SimpleBlock2

open EmbeddedSystem.Verified
open EmbeddedSystem.Verified.Uaccess
open EmbeddedSystem.Verified.WaitQueue
open EmbeddedSystem.Verified.Transition
open EmbeddedSystem.Verified.CallPool
open EmbeddedSystem.Verified.Long

/-! ## `simple_block_2.h` -/

/-- `'z'` -/
def simpleIoctlNum : Nat := 0x7a

def ioctlStartNum : Nat := 0x80

/-- `_IOWR(SIMPLE_IOCTL_NUM, IOCTL_NUM1, unsigned long)` and so on. -/
def wq : Nat := iowr simpleIoctlNum (ioctlStartNum + 1) 8
def wqEx : Nat := iowr simpleIoctlNum (ioctlStartNum + 2) 8
def wqWakeUp : Nat := iowr simpleIoctlNum (ioctlStartNum + 3) 8
def wqWakeUpAll : Nat := iowr simpleIoctlNum (ioctlStartNum + 4) 8

/-! ## State -/

/-- The module's globals.  `produced` sums the amounts added so far and
`consumed` counts the decrements; no code reads them. -/
structure Block2 where
  myData : BitVec 64
  myWq : Queue
  produced : Int
  consumed : Nat
deriving DecidableEq, Repr

/-- After `simple_block_2_init`. -/
def simpleBlock2Init : Block2 := ⟨0, [], 0, 0⟩

/-- The next statement of an ioctl. -/
inductive Pc where
  | wait (p : Phase)
  | decrement
  | increment
  | wake
  | readBack
  | returned (code : Int)
deriving DecidableEq, Repr

/-- The arguments of `simple_block_2_ioctl`. -/
structure Ioctl where
  cmd : Nat
  arg : BitVec 64
deriving DecidableEq, Repr

/-- A call of `simple_block_2_ioctl`. -/
structure Call where
  ioctl : Ioctl
  pc : Pc
deriving DecidableEq, Repr

/-- The cases of the `switch`. -/
def simpleBlock2Ioctl (k : Ioctl) : Call :=
  if k.cmd = wq ∨ k.cmd = wqEx then ⟨k, .wait .entry⟩
  else if k.cmd = wqWakeUp ∨ k.cmd = wqWakeUpAll then ⟨k, .increment⟩
  else ⟨k, .returned (-einval)⟩

/-- One step of call `i`; `signal` says whether a signal is pending. -/
def simpleBlock2Step (g : Block2) (i : Nat) (l : Call) (signal : Bool) :
    Option (Block2 × Call) :=
  match l.pc with
  | .wait p =>
      match waitEventInterruptible g.myWq i (l.ioctl.cmd = wqEx)
          (decide (0 < g.myData.toInt)) signal p with
      | none => none
      | some (q, .again p') =>
          some ({ g with myWq := q }, { l with pc := .wait p' })
      | some (q, .done ret) =>
          some ({ g with myWq := q },
            { l with pc := if ret < 0 then .returned ret else .decrement })
  | .decrement =>
      some ({ g with myData := g.myData - 1, consumed := g.consumed + 1 },
        { l with pc := .readBack })
  | .increment =>
      some ({ g with
          myData := g.myData + l.ioctl.arg
          produced := g.produced + l.ioctl.arg.toInt },
        { l with pc := .wake })
  | .wake =>
      some ({ g with myWq :=
          if l.ioctl.cmd = wqWakeUp then wakeUpInterruptible g.myWq
          else wakeUpInterruptibleAll g.myWq },
        { l with pc := .readBack })
  | .readBack => some (g, { l with pc := .returned g.myData.toInt })
  | .returned _ => none

abbrev Conf := CallPool.Conf Block2 Call

abbrev Move := CallPool.Move Ioctl Bool

/-- One step of the whole module. -/
def step : Conf → Move → Option Conf :=
  CallPool.step simpleBlock2Ioctl simpleBlock2Step

/-- The module right after it was loaded. -/
def loaded : Conf := CallPool.start simpleBlock2Init

/-! ## What the steps can do -/

/-- The consumer's wait lets it through now: it is at one of the two tests of
`my_data > 0`, and the test succeeds. -/
def Passes (g : Block2) (l : Call) : Prop :=
  (l.pc = .wait .entry ∨ ∃ signal, l.pc = .wait (.test signal)) ∧
    0 < g.myData.toInt

instance (g : Block2) (l : Call) : Decidable (Passes g l) :=
  inferInstanceAs (Decidable (_ ∧ _))

/-- The steps of an ioctl, one constructor for each way through it. -/
inductive Step (g : Block2) (l : Call) : Block2 → Call → Prop where
  | waitAgain (p p' : Phase) (q : Queue) (hpc : l.pc = .wait p) :
      Step g l { g with myWq := q } { l with pc := .wait p' }
  | interrupted (p : Phase) (q : Queue) (ret : Int) (hpc : l.pc = .wait p) :
      Step g l { g with myWq := q } { l with pc := .returned ret }
  | pass (q : Queue) (hpass : Passes g l) :
      Step g l { g with myWq := q } { l with pc := .decrement }
  | decrement (hpc : l.pc = .decrement) :
      Step g l { g with myData := g.myData - 1, consumed := g.consumed + 1 }
        { l with pc := .readBack }
  | increment (hpc : l.pc = .increment) :
      Step g l
        { g with
          myData := g.myData + l.ioctl.arg
          produced := g.produced + l.ioctl.arg.toInt }
        { l with pc := .wake }
  | wake (q : Queue) (hpc : l.pc = .wake) :
      Step g l { g with myWq := q } { l with pc := .readBack }
  | readBack (code : Int) (hpc : l.pc = .readBack) :
      Step g l g { l with pc := .returned code }

/-- The wait macro returns 0 only from one of its two tests. -/
theorem wait_done_zero {q q' : Queue} {i : Nat} {exclusive cond signal : Bool}
    {p : Phase}
    (h : waitEventInterruptible q i exclusive cond signal p =
      some (q', .done 0)) :
    (p = .entry ∨ ∃ sig, p = .test sig) ∧ cond = true := by
  have hcond : cond = true := by
    rcases waitEventInterruptible_done h with ⟨-, hc⟩ | hneg
    · exact hc
    · exact absurd hneg (by decide)
  refine ⟨?_, hcond⟩
  cases p with
  | entry => exact Or.inl rfl
  | test sig => exact Or.inr ⟨sig, rfl⟩
  | prepare => cases signal <;> simp [waitEventInterruptible] at h
  | asleep =>
      simp only [waitEventInterruptible] at h
      split at h
      · simp at h
      · split at h <;> simp at h

theorem simpleBlock2Step_step {g g' : Block2} {i : Nat} {l l' : Call}
    {signal : Bool} (h : simpleBlock2Step g i l signal = some (g', l')) :
    Step g l g' l' := by
  unfold simpleBlock2Step at h
  split at h
  case h_1 p hpc =>
    split at h
    case h_1 => cases h
    case h_2 q p' _ =>
      cases h
      exact .waitAgain p p' q hpc
    case h_3 q ret hw =>
      cases h
      by_cases hret : ret < 0
      · rw [if_pos hret]
        exact .interrupted p q ret hpc
      · rw [if_neg hret]
        have hzero : ret = 0 := by
          rcases waitEventInterruptible_done hw with ⟨hz, -⟩ | hneg
          · exact hz
          · rw [hneg] at hret
            exact absurd (by decide) hret
        subst hzero
        obtain ⟨hp, hcond⟩ := wait_done_zero hw
        refine .pass q ⟨?_, of_decide_eq_true hcond⟩
        rcases hp with rfl | ⟨sig, rfl⟩
        · exact Or.inl hpc
        · exact Or.inr ⟨sig, hpc⟩
  case h_2 hpc =>
    cases h
    exact .decrement hpc
  case h_3 hpc =>
    cases h
    exact .increment hpc
  case h_4 hpc =>
    cases h
    exact .wake _ hpc
  case h_5 hpc =>
    cases h
    exact .readBack _ hpc
  case h_6 => cases h

/-! ## Units -/

/-- 1 for a consumer that has left its wait and not decremented yet. -/
def pending (l : Call) : Nat := if l.pc = .decrement then 1 else 0

/-- The amount a producer's ioctl carries. -/
def amount (l : Call) : Nat :=
  if l.ioctl.cmd = wqWakeUp ∨ l.ioctl.cmd = wqWakeUpAll then l.ioctl.arg.toNat
  else 0

/-- The amount a producer's ioctl has still to add. -/
def unadded (l : Call) : Nat :=
  if l.pc = .increment then l.ioctl.arg.toNat else 0

/-- The producers' amounts are non-negative and their sum stays below
2 ^ 63. -/
def Supplied (c : Conf) : Move → Prop
  | .issue k =>
      k.cmd = wqWakeUp ∨ k.cmd = wqWakeUpAll →
        0 ≤ k.arg.toInt ∧
          (total amount c.calls : Int) + k.arg.toInt < 0x8000000000000000
  | .advance _ _ => True

/-- A consumer leaves its wait only while there are more units than consumers
that have left theirs and not decremented yet. -/
def Reserved (c : Conf) : Move → Prop
  | .issue _ => True
  | .advance i _ =>
      ∀ l ∈ c.calls[i]?, Passes c.shared l →
        (total pending c.calls : Int) < c.shared.myData.toInt

instance (c : Conf) : ∀ mv, Decidable (Supplied c mv)
  | .issue _ => inferInstanceAs (Decidable (_ → _))
  | .advance _ _ => inferInstanceAs (Decidable True)

instance (c : Conf) : ∀ mv, Decidable (Reserved c mv)
  | .issue _ => inferInstanceAs (Decidable True)
  | .advance i _ =>
      inferInstanceAs (Decidable (∀ l ∈ c.calls[i]?, Passes c.shared l → _))

/-- The books of the counter. -/
structure Balanced (c : Conf) : Prop where
  supply : c.shared.produced + total unadded c.calls = total amount c.calls
  bound : (total amount c.calls : Int) < 0x8000000000000000
  data : c.shared.myData.toInt = c.shared.produced - c.shared.consumed
  covered : (total pending c.calls : Int) ≤ c.shared.myData.toInt

theorem loaded_balanced : Balanced loaded := by
  refine ⟨rfl, by decide, rfl, by decide⟩

/-! ### Weights -/

/-- A new call brings its amount, all of it still to be added, and has
passed no wait. -/
theorem weights_enter (k : Ioctl) :
    amount (simpleBlock2Ioctl k) = unadded (simpleBlock2Ioctl k) ∧
      pending (simpleBlock2Ioctl k) = 0 := by
  have hex : wq ≠ wqWakeUp ∧ wq ≠ wqWakeUpAll ∧ wqEx ≠ wqWakeUp ∧
      wqEx ≠ wqWakeUpAll := by decide
  unfold simpleBlock2Ioctl
  by_cases hc : k.cmd = wq ∨ k.cmd = wqEx
  · rw [if_pos hc]
    have hnot : ¬ (k.cmd = wqWakeUp ∨ k.cmd = wqWakeUpAll) := by
      omega
    simp [amount, unadded, pending, hnot]
  · rw [if_neg hc]
    by_cases hp : k.cmd = wqWakeUp ∨ k.cmd = wqWakeUpAll
    · rw [if_pos hp]
      simp [amount, unadded, pending, hp]
    · rw [if_neg hp]
      simp [amount, unadded, pending, hp]

/-- What a producer's ioctl weighs when it is issued. -/
theorem amount_enter (k : Ioctl) :
    amount (simpleBlock2Ioctl k) =
      if k.cmd = wqWakeUp ∨ k.cmd = wqWakeUpAll then k.arg.toNat else 0 := by
  have hioctl : (simpleBlock2Ioctl k).ioctl = k := by
    unfold simpleBlock2Ioctl
    split
    · rfl
    · split <;> rfl
  rw [amount, hioctl]

/-- What a step does to the books, provided that the counter covers a
decrement and has room for an increment. -/
theorem Step.books {g g' : Block2} {l l' : Call} (h : Step g l g' l')
    (hdec : l.pc = .decrement → 0 ≤ g.myData.toInt)
    (hinc : l.pc = .increment →
      0 ≤ g.myData.toInt ∧ l.ioctl.arg.toInt = l.ioctl.arg.toNat ∧
        g.myData.toInt + l.ioctl.arg.toInt < 0x8000000000000000) :
    amount l' = amount l ∧
      g'.produced + unadded l' = g.produced + unadded l ∧
      g'.myData.toInt + g'.consumed - g'.produced =
        g.myData.toInt + g.consumed - g.produced ∧
      ((pending l' : Int) - pending l ≤ g'.myData.toInt - g.myData.toInt ∨
        (Passes g l ∧ pending l' = pending l + 1 ∧
          g'.myData = g.myData)) := by
  cases h with
  | waitAgain p p' q hpc => simp [amount, unadded, pending, hpc]
  | interrupted p q ret hpc => simp [amount, unadded, pending, hpc]
  | pass q hpass =>
      have hpc : l.pc ≠ .decrement ∧ l.pc ≠ .increment := by
        rcases hpass.1 with h | ⟨sig, h⟩ <;> simp [h]
      refine ⟨rfl, ?_, rfl, Or.inr ⟨hpass, ?_, rfl⟩⟩
      · simp [unadded, hpc.2]
      · simp [pending, hpc.1]
  | decrement hpc =>
      have hpred := toInt_pred (hdec hpc)
      refine ⟨rfl, ?_, ?_, Or.inl ?_⟩
      · simp [unadded, hpc]
      · show (g.myData - 1).toInt + ((g.consumed + 1 : Nat) : Int) -
            g.produced = _
        omega
      · have hone : pending l = 1 := by
          simp [pending, hpc]
        have hzero : pending { l with pc := .readBack } = 0 := by
          simp [pending]
        show _ ≤ (g.myData - 1).toInt - g.myData.toInt
        omega
  | increment hpc =>
      obtain ⟨hdata, hnat, hroom⟩ := hinc hpc
      have hadd := toInt_add_of_lt hdata (by omega) hroom
      refine ⟨rfl, ?_, ?_, Or.inl ?_⟩
      · have hall : unadded l = l.ioctl.arg.toNat := by
          simp [unadded, hpc]
        have hzero : unadded { l with pc := .wake } = 0 := by
          simp [unadded]
        show g.produced + l.ioctl.arg.toInt +
          (unadded { l with pc := .wake } : Int) = _
        omega
      · show (g.myData + l.ioctl.arg).toInt + (g.consumed : Int) -
          (g.produced + l.ioctl.arg.toInt) = _
        omega
      · have hsame : pending { l with pc := .wake } = pending l := by
          simp [pending, hpc]
        show _ ≤ (g.myData + l.ioctl.arg).toInt - g.myData.toInt
        omega
  | wake q hpc => simp [amount, unadded, pending, hpc]
  | readBack code hpc => simp [amount, unadded, pending, hpc]

/-! ## The counter covers every reserved unit -/

theorem Balanced.issue {c : Conf} (hb : Balanced c) {k : Ioctl}
    (hs : Supplied c (.issue k)) :
    Balanced ⟨c.shared, c.calls ++ [simpleBlock2Ioctl k]⟩ := by
  obtain ⟨heq, hpend⟩ := weights_enter k
  have hsup := hb.supply
  have hcov := hb.covered
  have hbound := hb.bound
  have hnew : (total amount c.calls : Int) + amount (simpleBlock2Ioctl k) <
      0x8000000000000000 := by
    rw [amount_enter]
    by_cases hp : k.cmd = wqWakeUp ∨ k.cmd = wqWakeUpAll
    · have hk := hs hp
      have hnat := toNat_eq_toInt hk.1
      rw [if_pos hp, hnat]
      exact hk.2
    · rw [if_neg hp]
      simpa using hbound
  refine
    { supply := ?_
      bound := ?_
      data := hb.data
      covered := ?_ }
  · rw [total_append_one, total_append_one, heq]
    push_cast
    omega
  · rw [total_append_one]
    push_cast
    exact hnew
  · rw [total_append_one, hpend]
    simpa using hcov

theorem Balanced.advance {c : Conf} (hb : Balanced c) {i : Nat} {sig : Bool}
    {l l' : Call} {g : Block2} (hl : c.calls[i]? = some l)
    (hr : Reserved c (.advance i sig)) (hst : Step c.shared l g l') :
    Balanced ⟨g, c.calls.set i l'⟩ := by
  have hsup := hb.supply
  have hbound := hb.bound
  have hdata := hb.data
  have hcov := hb.covered
  have hinc : l.pc = .increment →
      0 ≤ c.shared.myData.toInt ∧ l.ioctl.arg.toInt = l.ioctl.arg.toNat ∧
        c.shared.myData.toInt + l.ioctl.arg.toInt < 0x8000000000000000 := by
    intro hpc
    have hall : unadded l = l.ioctl.arg.toNat := by
      simp [unadded, hpc]
    have hle := le_total unadded hl
    have hnat := toInt_eq_toNat (x := l.ioctl.arg) (by omega)
    refine ⟨?_, hnat, ?_⟩ <;> omega
  obtain ⟨hamt, hprod, hbal, hpend⟩ :=
    hst.books (fun _ => by omega) hinc
  have hamount := total_set amount l' hl
  have hunadded := total_set unadded l' hl
  have hpending := total_set pending l' hl
  refine
    { supply := ?_
      bound := ?_
      data := ?_
      covered := ?_ }
  · show g.produced + (total unadded (c.calls.set i l') : Int) =
      total amount (c.calls.set i l')
    omega
  · show (total amount (c.calls.set i l') : Int) < 0x8000000000000000
    omega
  · show g.myData.toInt = g.produced - g.consumed
    omega
  · show (total pending (c.calls.set i l') : Int) ≤ g.myData.toInt
    rcases hpend with hless | ⟨hpass, hmore, hsame⟩
    · omega
    · -- the consumer that passes finds a unit to spare
      have hfree := hr l hl hpass
      rw [hsame]
      omega

theorem Balanced.step {c d : Conf} {mv : Move} (hb : Balanced c)
    (hs : Supplied c mv) (hr : Reserved c mv) (hst : step c mv = some d) :
    Balanced d := by
  rcases step_cases hst with
    ⟨k, hmv, hd⟩ | ⟨i, sig, l, g, l', hmv, hl, hbody, hd⟩
  · rw [hmv] at hs
    rw [hd]
    exact hb.issue hs
  · rw [hmv] at hr
    rw [hd]
    exact hb.advance hl hr (simpleBlock2Step_step hbody)

/-! ## Too many reservations drain the counter -/

/-- One of the consumers in flight decrements. -/
theorem drainOne {n : Nat} {c : Conf} (hdata : c.shared.myData.toInt = n)
    (hpend : n < total pending c.calls) :
    ∃ i d, step c (.advance i false) = some d ∧
      d.shared.myData.toInt = (n : Int) - 1 ∧
      total pending d.calls + 1 = total pending c.calls := by
  have hpos : 0 < total pending c.calls := by omega
  obtain ⟨i, l, hl, hw⟩ := exists_of_total_pos pending hpos
  have hpc : l.pc = .decrement := by
    by_cases h : l.pc = .decrement
    · exact h
    · simp [pending, h] at hw
  have hbody : simpleBlock2Step c.shared i l false =
      some ({ c.shared with
          myData := c.shared.myData - 1
          consumed := c.shared.consumed + 1 }, { l with pc := .readBack }) := by
    simp only [simpleBlock2Step, hpc]
  refine ⟨i, _, step_advance hl hbody, ?_, ?_⟩
  · show (c.shared.myData - 1).toInt = _
    rw [toInt_pred (by omega), hdata]
  · have hset := total_set pending { l with pc := .readBack } hl
    have hone : pending l = 1 := by
      simp [pending, hpc]
    have hzero : pending { l with pc := .readBack } = 0 := by
      simp [pending]
    show total pending (c.calls.set i { l with pc := .readBack }) + 1 = _
    omega

/-- The step of a consumer that its wait lets through. -/
theorem Passes.step {g : Block2} {l : Call} (h : Passes g l) (i : Nat)
    (signal : Bool) :
    ∃ q, simpleBlock2Step g i l signal =
      some ({ g with myWq := q }, { l with pc := .decrement }) := by
  have hcond : decide (0 < g.myData.toInt) = true := decide_eq_true h.2
  rcases h.1 with hpc | ⟨sig, hpc⟩
  · refine ⟨g.myWq, ?_⟩
    simp [simpleBlock2Step, hpc, waitEventInterruptible, hcond]
  · refine ⟨finishWait g.myWq i, ?_⟩
    simp [simpleBlock2Step, hpc, waitEventInterruptible, hcond]

/-- More reservations than units: the consumers that hold them can drive the
counter below zero without anybody else's help. -/
theorem drained {n : Nat} {c : Conf} (hdata : c.shared.myData.toInt = n)
    (hpend : n < total pending c.calls) :
    ∃ mvs e, run step c mvs = some e ∧ e.shared.myData.toInt < 0 := by
  induction n generalizing c with
  | zero =>
      have hone := drainOne hdata hpend
      obtain ⟨i, d, hst, hd, -⟩ := hone
      refine ⟨[.advance i false], d, run_single hst, ?_⟩
      rw [hd]
      decide
  | succ n ih =>
      have hone := drainOne hdata hpend
      obtain ⟨i, d, hst, hd, hpd⟩ := hone
      have hdn : d.shared.myData.toInt = n := by
        rw [hd]
        push_cast
        omega
      obtain ⟨mvs, e, hrun, he⟩ := ih hdn (by omega)
      refine ⟨.advance i false :: mvs, e, ?_, he⟩
      rw [run_cons, hst]
      exact hrun

/-- A consumer that leaves its wait without a unit to spare puts the counter
at the mercy of the consumers in flight. -/
theorem overbooked {c d : Conf} {mv : Move} (hb : Balanced c)
    (hnot : ¬ Reserved c mv) (hst : step c mv = some d) :
    ∃ mvs e, run step d mvs = some e ∧ e.shared.myData.toInt < 0 := by
  have hbad : ∃ i sig l, mv = .advance i sig ∧ c.calls[i]? = some l ∧
      Passes c.shared l ∧
      c.shared.myData.toInt ≤ (total pending c.calls : Int) := by
    cases mv with
    | issue k => exact absurd trivial hnot
    | advance i sig =>
        simp only [Reserved, Classical.not_forall,
          Int.not_lt] at hnot
        obtain ⟨l, hl, hpass, hfull⟩ := hnot
        exact ⟨i, sig, l, rfl, hl, hpass, hfull⟩
  obtain ⟨i, sig, l, hmv, hl, hpass, hfull⟩ := hbad
  obtain ⟨q, hbody⟩ := hpass.step i sig
  have hd : d = ⟨{ c.shared with myWq := q },
      c.calls.set i { l with pc := .decrement }⟩ := by
    have hgo : step c (.advance i sig) = _ := step_advance hl hbody
    rw [hmv, hgo, Option.some.injEq] at hst
    exact hst.symm
  have hpend := total_set pending { l with pc := .decrement } hl
  have hzero : pending l = 0 := by
    rcases hpass.1 with hpc | ⟨s, hpc⟩ <;> simp [pending, hpc]
  have hone : pending { l with pc := .decrement } = 1 := by
    simp [pending]
  have hcov := hb.covered
  have hdata : d.shared.myData.toInt = (c.shared.myData.toInt.toNat : Nat) := by
    rw [hd]
    show c.shared.myData.toInt = _
    omega
  apply drained hdata
  rw [hd]
  show _ < total pending (c.calls.set i { l with pc := .decrement })
  omega

/-! ## The result -/

/-- In a run whose producers' amounts are non-negative and sum up to less
than 2 ^ 63 and whose consumers all leave their wait with a unit to spare,
the counter is never negative and no more units were consumed than produced.
Where the next step lets a consumer through without a unit to spare, steps of
the consumers in flight alone make the counter negative. -/
theorem data_nonneg_of_reserved {c : Conf} {mvs : List Move}
    (hrun : run step loaded mvs = some c)
    (hs : Along step Supplied loaded mvs)
    (hr : Along step Reserved loaded mvs) :
    Throughout step
        (fun t => 0 ≤ t.shared.myData.toInt ∧
          (t.shared.consumed : Int) ≤ t.shared.produced) loaded mvs ∧
      ∀ mv d, ¬ Reserved c mv → step c mv = some d →
        ∃ mvs' e, run step d mvs' = some e ∧ e.shared.myData.toInt < 0 := by
  have hbal : ∀ xs ys t, mvs = xs ++ ys → run step loaded xs = some t →
      Balanced t := by
    intro xs ys t hsplit hxs
    subst hsplit
    have hboth : Along step (fun c mv => Supplied c mv ∧ Reserved c mv)
        loaded xs := hs.of_append.and hr.of_append
    apply run_induct_along (P := Balanced) _ loaded_balanced hboth hxs
    intro s a t hb hC hst
    exact hb.step hC.1 hC.2 hst
  constructor
  · intro xs ys t hsplit hxs
    have hb := hbal xs ys t hsplit hxs
    have hcov := hb.covered
    have hdata := hb.data
    constructor <;> omega
  · intro mv d hnot hst
    have hb := hbal mvs [] c (List.append_nil mvs).symm hrun
    exact overbooked hb hnot hst

/-- A non-exclusive and an exclusive consumer sleep.  Two producers add three
units, and both consumers leave their wait before either of them decrements
the counter. -/
def threeForTwoRun : List Move :=
  List.flatten
    [ .issue ⟨wq, 0⟩ :: List.replicate 3 (.advance 0 false)
    , .issue ⟨wqEx, 0⟩ :: List.replicate 3 (.advance 1 false)
    , [.issue ⟨wqWakeUpAll, 2⟩, .issue ⟨wqWakeUp, 1⟩]
    , [.advance 2 false, .advance 3 false, .advance 2 false]
    , [.advance 0 false, .advance 1 false, .advance 0 false]
    , [.advance 1 false, .advance 0 false, .advance 1 false]
    , [.advance 0 false, .advance 3 false, .advance 1 false] ]

theorem data_nonneg_of_reserved_threeForTwoRun :
    ∃ c, run step loaded threeForTwoRun = some c ∧ c.shared.consumed = 2 ∧
      0 ≤ c.shared.myData.toInt := by
  have hend : (run step loaded threeForTwoRun).map (fun c =>
      c.shared.consumed) = some 2 := by
    decide +kernel
  obtain ⟨c, hrun, hc⟩ := Option.map_eq_some_iff.mp hend
  have hall := data_nonneg_of_reserved hrun (by decide +kernel)
    (by decide +kernel)
  exact ⟨c, hrun, hc, (hall.1 threeForTwoRun [] c rfl hrun).1⟩

/-- One unit is produced, and a non-exclusive and an exclusive consumer test
the counter before either of them decrements it. -/
def oneForTwoRun : List Move :=
  [ .issue ⟨wqWakeUp, 1⟩, .advance 0 false
  , .issue ⟨wq, 0⟩, .advance 1 false
  , .issue ⟨wqEx, 0⟩, .advance 2 false
  , .advance 1 false, .advance 2 false ]

/-- Both take the one unit. -/
theorem oneForTwoRun_negative :
    ∃ c, run step loaded oneForTwoRun = some c ∧
      Along step Supplied loaded oneForTwoRun ∧
      c.shared.myData.toInt < 0 ∧
      c.shared.produced < c.shared.consumed := by
  have hend : (run step loaded oneForTwoRun).map (fun c =>
      (c.shared.myData.toInt, c.shared.produced, c.shared.consumed)) =
        some (-1, 1, 2) := by
    decide +kernel
  obtain ⟨c, hrun, hc⟩ := Option.map_eq_some_iff.mp hend
  simp only [Prod.mk.injEq] at hc
  refine ⟨c, hrun, by decide +kernel, ?_, ?_⟩ <;> omega

end EmbeddedSystem.Labs.SimpleBlock2
