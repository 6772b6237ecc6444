import EmbeddedSystem.Labs.SimpleBlock2
import EmbeddedSystem.Verified.WaitOrder

/-!
# Who may sleep beside the units of `simple_block_2`

`WQ_WAKE_UP` wakes every non-exclusive consumer but one exclusive consumer at
most, however many units it has added, and a woken consumer wakes nobody
else.  So a non-exclusive sleeper has seen no unit since it marked itself, or
a wake-up is on its way to it.  An exclusive one can rely on less: there are
no more units than calls which will take one, or bring somebody to take one,
without a wake-up that was meant for it (`Covered`).  Consumers that stand
ahead of it on the queue and have not tested `my_data` yet do not count, since
the next wake-up is spent on them.

That is enough as long as every `WQ_WAKE_UP` adds one unit, or leaves no
consumer on the queue (`Matched`).
-/

set_option autoImplicit false

namespace EmbeddedSystem.Labs.SimpleBlock2

open EmbeddedSystem.Verified
open EmbeddedSystem.Verified.Uaccess
open EmbeddedSystem.Verified.WaitQueue
open EmbeddedSystem.Verified.Transition
open EmbeddedSystem.Verified.CallPool
open EmbeddedSystem.Verified.Long

/-! ## The steps in full -/

/-- The steps of `simpleBlock2Step` with what they do to the wait queue. -/
inductive Turn (g : Block2) (i : Nat) (l : Call) : Block2 → Call → Prop where
  | passEntry (hpc : l.pc = .wait .entry) (hdata : 0 < g.myData.toInt) :
      Turn g i l g { l with pc := .decrement }
  | noUnit (hpc : l.pc = .wait .entry) (hdata : g.myData.toInt ≤ 0) :
      Turn g i l g { l with pc := .wait .prepare }
  | giveUp (hpc : l.pc = .wait .prepare) :
      Turn g i l { g with myWq := finishWait g.myWq i }
        { l with pc := .wait (.test true) }
  | mark (hpc : l.pc = .wait .prepare) :
      Turn g i l
        { g with myWq :=
          prepareToWait g.myWq i (decide (l.ioctl.cmd = wqEx)) }
        { l with pc := .wait (.test false) }
  | passTest (sig : Bool) (hpc : l.pc = .wait (.test sig))
      (hdata : 0 < g.myData.toInt) :
      Turn g i l { g with myWq := finishWait g.myWq i }
        { l with pc := .decrement }
  | interrupted (hpc : l.pc = .wait (.test true))
      (hdata : g.myData.toInt ≤ 0) :
      Turn g i l g { l with pc := .returned (-erestartsys) }
  | sleep (hpc : l.pc = .wait (.test false)) (hdata : g.myData.toInt ≤ 0) :
      Turn g i l g { l with pc := .wait .asleep }
  | signalled (hpc : l.pc = .wait .asleep) :
      Turn g i l { g with myWq := finishWait g.myWq i }
        { l with pc := .wait .prepare }
  | woken (hpc : l.pc = .wait .asleep) (hmark : marked g.myWq i = false) :
      Turn g i l g { l with pc := .wait .prepare }
  | decrement (hpc : l.pc = .decrement) :
      Turn g i l
        { g with myData := g.myData - 1, consumed := g.consumed + 1 }
        { l with pc := .readBack }
  | increment (hpc : l.pc = .increment) :
      Turn g i l
        { g with
          myData := g.myData + l.ioctl.arg
          produced := g.produced + l.ioctl.arg.toInt }
        { l with pc := .wake }
  | wake (hpc : l.pc = .wake) :
      Turn g i l
        { g with myWq :=
          if l.ioctl.cmd = wqWakeUp then wakeUpInterruptible g.myWq
          else wakeUpInterruptibleAll g.myWq }
        { l with pc := .readBack }
  | readBack (code : Int) (hpc : l.pc = .readBack) :
      Turn g i l g { l with pc := .returned code }

theorem wait_turn {g g' : Block2} {i : Nat} {l l' : Call} {signal : Bool}
    {p : Phase} (hpc : l.pc = .wait p)
    (h : simpleBlock2Step g i l signal = some (g', l')) : Turn g i l g' l' := by
  have hneg : (-erestartsys : Int) < 0 := by decide
  simp only [simpleBlock2Step, hpc] at h
  cases p with
  | entry =>
      by_cases hdata : 0 < g.myData.toInt
      · simp only [waitEventInterruptible, decide_eq_true hdata, if_true,
          Int.lt_irrefl, if_false, Option.some.injEq, Prod.mk.injEq] at h
        obtain ⟨rfl, rfl⟩ := h
        exact .passEntry hpc hdata
      · simp only [waitEventInterruptible, decide_eq_false hdata,
          Bool.false_eq_true, if_false, Option.some.injEq,
          Prod.mk.injEq] at h
        obtain ⟨rfl, rfl⟩ := h
        exact .noUnit hpc (Int.not_lt.mp hdata)
  | prepare =>
      cases signal with
      | true =>
          cases h
          exact .giveUp hpc
      | false =>
          cases h
          exact .mark hpc
  | test sig =>
      by_cases hdata : 0 < g.myData.toInt
      · simp only [waitEventInterruptible, decide_eq_true hdata, if_true,
          Int.lt_irrefl, if_false, Option.some.injEq, Prod.mk.injEq] at h
        obtain ⟨rfl, rfl⟩ := h
        exact .passTest sig hpc hdata
      · cases sig with
        | true =>
            simp only [waitEventInterruptible, decide_eq_false hdata,
              Bool.false_eq_true, if_false, if_true, hneg,
              Option.some.injEq, Prod.mk.injEq] at h
            obtain ⟨rfl, rfl⟩ := h
            exact .interrupted hpc (Int.not_lt.mp hdata)
        | false =>
            simp only [waitEventInterruptible, decide_eq_false hdata,
              Bool.false_eq_true, if_false, Option.some.injEq,
              Prod.mk.injEq] at h
            obtain ⟨rfl, rfl⟩ := h
            exact .sleep hpc (Int.not_lt.mp hdata)
  | asleep =>
      cases signal with
      | true =>
          cases h
          exact .signalled hpc
      | false =>
          cases hmark : marked g.myWq i with
          | true => simp [waitEventInterruptible, hmark] at h
          | false =>
              simp only [waitEventInterruptible, hmark, Bool.false_eq_true,
                if_false, Option.some.injEq, Prod.mk.injEq] at h
              obtain ⟨rfl, rfl⟩ := h
              exact .woken hpc hmark

theorem simpleBlock2Step_turn {g g' : Block2} {i : Nat} {l l' : Call}
    {signal : Bool} (h : simpleBlock2Step g i l signal = some (g', l')) :
    Turn g i l g' l' := by
  cases hpc : l.pc with
  | wait p => exact wait_turn hpc h
  | decrement =>
      simp only [simpleBlock2Step, hpc, Option.some.injEq,
        Prod.mk.injEq] at h
      obtain ⟨rfl, rfl⟩ := h
      exact .decrement hpc
  | increment =>
      simp only [simpleBlock2Step, hpc, Option.some.injEq,
        Prod.mk.injEq] at h
      obtain ⟨rfl, rfl⟩ := h
      exact .increment hpc
  | wake =>
      simp only [simpleBlock2Step, hpc, Option.some.injEq,
        Prod.mk.injEq] at h
      obtain ⟨rfl, rfl⟩ := h
      exact .wake hpc
  | readBack =>
      simp only [simpleBlock2Step, hpc, Option.some.injEq,
        Prod.mk.injEq] at h
      obtain ⟨rfl, rfl⟩ := h
      exact .readBack _ hpc
  | returned code => simp [simpleBlock2Step, hpc] at h

/-- What a step leaves on the queue was there before or is the waiter that
marks itself. -/
theorem Turn.queue {g g' : Block2} {i : Nat} {l l' : Call}
    (h : Turn g i l g' l') :
    (g'.myWq.Sublist g.myWq ∨
        (l'.pc = .wait (.test false) ∧ g'.myWq =
          prepareToWait g.myWq i (decide (l.ioctl.cmd = wqEx)))) ∧
      l'.ioctl = l.ioctl := by
  refine ⟨?_, by cases h <;> rfl⟩
  cases h with
  | giveUp hpc => exact Or.inl (finishWait_sublist _ _)
  | mark hpc => exact Or.inr ⟨rfl, rfl⟩
  | passTest sig hpc hdata => exact Or.inl (finishWait_sublist _ _)
  | signalled hpc => exact Or.inl (finishWait_sublist _ _)
  | wake hpc =>
      refine Or.inl ?_
      show (if l.ioctl.cmd = wqWakeUp then _ else _ : Queue).Sublist _
      split
      · exact wakeUpInterruptible_sublist _
      · rw [wakeUpInterruptibleAll_eq_nil]
        exact List.nil_sublist _
  | _ => exact Or.inl (List.Sublist.refl _)

/-- A waiter that is still on the queue after its own step has just marked
itself or gone to sleep. -/
theorem Turn.own_mark {g g' : Block2} {i : Nat} {l l' : Call}
    (h : Turn g i l g' l')
    (hbefore : marked g.myWq i = true →
      l.pc = .wait (.test false) ∨ l.pc = .wait .asleep)
    (hmark : marked g'.myWq i = true) :
    l'.pc = .wait (.test false) ∨ l'.pc = .wait .asleep := by
  have hleft : ∀ q, marked (finishWait q i) i ≠ true := by
    intro q hq
    rw [marked_finishWait_self] at hq
    cases hq
  rcases h.queue.1 with hsub | ⟨hpc, -⟩
  · have hm := marked_of_sublist hsub hmark
    have hwas := hbefore hm
    cases h with
    | giveUp hpc => exact absurd hmark (hleft _)
    | passTest sig hpc hdata => exact absurd hmark (hleft _)
    | signalled hpc => exact absurd hmark (hleft _)
    | sleep hpc hdata => exact Or.inr rfl
    | woken hpc hnot =>
        rw [hnot] at hm
        cases hm
    | _ => simp_all
  · exact Or.inl hpc

/-! ## The waiters on the queue -/

/-- The queue is lined up, and its entries are consumers that have marked
themselves, exclusive for `WQ_EX`. -/
structure Waiting (c : Conf) : Prop where
  lined : Lined c.shared.myWq
  entry : ∀ x ∈ c.shared.myWq, ∃ l, c.calls[x.waiter]? = some l ∧
    (l.pc = .wait (.test false) ∨ l.pc = .wait .asleep) ∧
    x.exclusive = decide (l.ioctl.cmd = wqEx)

theorem loaded_waiting : Waiting loaded :=
  ⟨lined_nil, fun _ hx => absurd hx List.not_mem_nil⟩

theorem Waiting.marked {c : Conf} (h : Waiting c) {i : Nat} {l : Call}
    (hl : c.calls[i]? = some l) (hm : WaitQueue.marked c.shared.myWq i = true) :
    l.pc = .wait (.test false) ∨ l.pc = .wait .asleep := by
  obtain ⟨x, hx, rfl⟩ := marked_iff.mp hm
  obtain ⟨l', hl', hpc, -⟩ := h.entry x hx
  rw [hl, Option.some.injEq] at hl'
  exact hl' ▸ hpc

theorem Waiting.advance {c : Conf} {i : Nat} {l l' : Call} {g : Block2}
    (h : Waiting c) (hl : c.calls[i]? = some l)
    (hst : Turn c.shared i l g l') : Waiting ⟨g, c.calls.set i l'⟩ := by
  obtain ⟨hqueue, hioctl⟩ := hst.queue
  have hold : ∀ x ∈ c.shared.myWq, i ≠ x.waiter →
      ∃ u, (c.calls.set i l')[x.waiter]? = some u ∧
        (u.pc = .wait (.test false) ∨ u.pc = .wait .asleep) ∧
        x.exclusive = decide (u.ioctl.cmd = wqEx) := by
    intro x hx hne
    obtain ⟨u, hu, hrest⟩ := h.entry x hx
    exact ⟨u, lookup_set_ne _ hne hu, hrest⟩
  have hown : ∀ x ∈ g.myWq, i = x.waiter →
      x.exclusive = decide (l.ioctl.cmd = wqEx) →
      ∃ u, (c.calls.set i l')[x.waiter]? = some u ∧
        (u.pc = .wait (.test false) ∨ u.pc = .wait .asleep) ∧
        x.exclusive = decide (u.ioctl.cmd = wqEx) := by
    intro x hx heq hex
    refine ⟨l', heq ▸ lookup_set_self hl, ?_, by rw [hioctl]; exact hex⟩
    exact hst.own_mark (fun hm => h.marked hl hm)
      (marked_iff.mpr ⟨x, hx, heq.symm⟩)
  have hentry : ∀ x ∈ c.shared.myWq, x ∈ g.myWq →
      ∃ u, (c.calls.set i l')[x.waiter]? = some u ∧
        (u.pc = .wait (.test false) ∨ u.pc = .wait .asleep) ∧
        x.exclusive = decide (u.ioctl.cmd = wqEx) := by
    intro x hx hx'
    by_cases hne : i = x.waiter
    · obtain ⟨u, hu, -, hex⟩ := h.entry x hx
      rw [← hne, hl, Option.some.injEq] at hu
      exact hown x hx' hne (hu ▸ hex)
    · exact hold x hx hne
  rcases hqueue with hsub | ⟨hpc, hmark⟩
  · exact ⟨h.lined.sublist hsub, fun x hx => hentry x (hsub.subset hx) hx⟩
  · refine ⟨?_, fun x hx => ?_⟩
    · show Lined g.myWq
      rw [hmark]
      exact h.lined.prepareToWait i _
    · have hx' : x ∈ g.myWq := hx
      rw [hmark] at hx
      unfold prepareToWait at hx
      split at hx
      · exact hentry x hx hx'
      · split at hx
        case isTrue hex =>
          rcases List.mem_append.mp hx with hin | hnew
          · exact hentry x hin hx'
          · rw [List.mem_singleton.mp hnew] at hx' ⊢
            exact hown _ hx' rfl hex.symm
        case isFalse hex =>
          rcases List.mem_cons.mp hx with hnew | hin
          · rw [hnew] at hx' ⊢
            exact hown _ hx' rfl (Bool.not_eq_true _ ▸ hex).symm
          · exact hentry x hin hx'

theorem Waiting.step {c d : Conf} {mv : Move} (h : Waiting c)
    (hst : SimpleBlock2.step c mv = some d) : Waiting d := by
  rcases step_cases hst with
    ⟨k, -, hd⟩ | ⟨i, sig, l, g, l', -, hl, hbody, hd⟩
  · rw [hd]
    refine ⟨h.lined, fun x hx => ?_⟩
    obtain ⟨l, hl, hrest⟩ := h.entry x hx
    exact ⟨l, lookup_append_old _ hl, hrest⟩
  · rw [hd]
    exact h.advance hl (simpleBlock2Step_turn hbody)

/-- A step marks nobody but the waiter itself. -/
theorem Turn.marked_ne {g g' : Block2} {i j : Nat} {l l' : Call}
    (h : Turn g i l g' l') (hij : i ≠ j)
    (hj : marked g'.myWq j = true) : marked g.myWq j = true := by
  rcases h.queue.1 with hsub | ⟨-, hmark⟩
  · exact marked_of_sublist hsub hj
  · rw [hmark, marked_prepareToWait_ne _ _ hij] at hj
    exact hj

/-! ## Non-exclusive sleepers -/

/-- Call `i` is inside `schedule()` and no wake-up has reached it. -/
def Asleep (c : Conf) (i : Nat) : Prop :=
  (∃ l : Call, c.calls[i]? = some l ∧ l.pc = .wait .asleep) ∧
    marked c.shared.myWq i = true

instance (c : Conf) (i : Nat) : Decidable (Asleep c i) :=
  inferInstanceAs (Decidable
    ((∃ l ∈ c.calls[i]?, l.pc = .wait .asleep) ∧ _))

/-- Some producer has added its units and not made its wake-up. -/
def WakeUnderWay (c : Conf) : Prop :=
  ∃ (i : Nat) (l : Call), c.calls[i]? = some l ∧ l.pc = .wake

/-- No decrement finds `my_data` at the least `long`. -/
def NoUnderflow (c : Conf) : Move → Prop
  | .issue _ => True
  | .advance i _ =>
      ∀ l ∈ c.calls[i]?, l.pc = .decrement →
        -0x8000000000000000 < c.shared.myData.toInt

instance (c : Conf) : ∀ mv, Decidable (NoUnderflow c mv)
  | .issue _ => inferInstanceAs (Decidable True)
  | .advance i _ =>
      inferInstanceAs (Decidable (∀ l ∈ c.calls[i]?, _ → _))

/-- A consumer goes to sleep only beside a counter without units. -/
theorem Turn.sleeps {g g' : Block2} {i : Nat} {l l' : Call}
    (h : Turn g i l g' l') (hpc : l'.pc = .wait .asleep) :
    g'.myData.toInt ≤ 0 := by
  cases h with
  | sleep _ hdata => exact hdata
  | _ => cases hpc

/-- The counter grows only by a producer that has its wake-up next. -/
theorem Turn.data {g g' : Block2} {i : Nat} {l l' : Call}
    (h : Turn g i l g' l')
    (hfits : l.pc = .decrement →
      -0x8000000000000000 < g.myData.toInt) :
    g'.myData.toInt ≤ g.myData.toInt ∨ l'.pc = .wake := by
  cases h with
  | decrement hpc =>
      refine Or.inl ?_
      show (g.myData - 1).toInt ≤ g.myData.toInt
      rw [toInt_pred_of_lt (hfits hpc)]
      omega
  | increment hpc => exact Or.inr rfl
  | _ => exact Or.inl (Int.le_refl _)

/-- Every non-exclusive sleeper has no unit beside it, or a wake-up
coming. -/
def Heeded (c : Conf) : Prop :=
  ∀ (i : Nat) (l : Call), c.calls[i]? = some l → l.pc = .wait .asleep →
    l.ioctl.cmd ≠ wqEx → marked c.shared.myWq i = true →
      c.shared.myData.toInt ≤ 0 ∨ WakeUnderWay c

theorem loaded_heeded : Heeded loaded := by
  intro i l hl
  simp [loaded, start] at hl

/-- Whom a wake-up leaves on the queue is exclusive. -/
theorem Waiting.exclusive_of_wake {c : Conf} (h : Waiting c) {i j : Nat}
    {l l' u : Call} {g : Block2} (hst : Turn c.shared i l g l')
    (hwake : l.pc = .wake) (hj : c.calls[j]? = some u)
    (hmark : WaitQueue.marked g.myWq j = true) : u.ioctl.cmd = wqEx := by
  cases hst with
  | wake hpc =>
      obtain ⟨x, hx, rfl⟩ := marked_iff.mp hmark
      have hx : x ∈ (if l.ioctl.cmd = wqWakeUp then
          wakeUpInterruptible c.shared.myWq
        else wakeUpInterruptibleAll c.shared.myWq) := hx
      split at hx
      · have hex := h.lined.exclusive_of_wake hx
        have hold := (wakeUpInterruptible_sublist _).subset hx
        obtain ⟨v, hv, -, heq⟩ := h.entry x hold
        rw [hj, Option.some.injEq] at hv
        rw [hex, hv.symm] at heq
        exact of_decide_eq_true heq.symm
      · rw [wakeUpInterruptibleAll_eq_nil] at hx
        cases hx
  | _ => simp_all

theorem Heeded.advance {c : Conf} {i : Nat} {l l' : Call} {g : Block2}
    (h : Heeded c) (hw : Waiting c) (hl : c.calls[i]? = some l)
    (hfits : l.pc = .decrement →
      -0x8000000000000000 < c.shared.myData.toInt)
    (hst : Turn c.shared i l g l') : Heeded ⟨g, c.calls.set i l'⟩ := by
  intro j u hj hpc hshared hmark
  rcases lookup_set_cases hl hj with ⟨-, hown⟩ | ⟨hij, hold⟩
  · subst hown
    exact Or.inl (hst.sleeps hpc)
  · by_cases hwake : l.pc = .wake
    · exact absurd (hw.exclusive_of_wake hst hwake hold hmark) hshared
    · rcases h j u hold hpc hshared (hst.marked_ne hij hmark) with
        hnone | ⟨k, v, hk, hv⟩
      · rcases hst.data hfits with hle | hnext
        · exact Or.inl (Int.le_trans hle hnone)
        · exact Or.inr ⟨i, l', lookup_set_self hl, hnext⟩
      · have hik : i ≠ k := by
          rintro rfl
          rw [hl, Option.some.injEq] at hk
          exact hwake (hk ▸ hv)
        exact Or.inr ⟨k, v, lookup_set_ne _ hik hk, hv⟩

/-- A call that was just issued is not asleep. -/
theorem simpleBlock2Ioctl_awake (k : Ioctl) :
    (simpleBlock2Ioctl k).pc ≠ .wait .asleep := by
  unfold simpleBlock2Ioctl
  split
  · exact fun h => by cases h
  · split <;> exact fun h => by cases h

theorem Heeded.step {c d : Conf} {mv : Move} (h : Heeded c)
    (hw : Waiting c) (hfits : NoUnderflow c mv)
    (hst : SimpleBlock2.step c mv = some d) : Heeded d := by
  rcases step_cases hst with
    ⟨k, -, hd⟩ | ⟨i, sig, l, g, l', hmv, hl, hbody, hd⟩
  · subst hd
    intro j u hj hpc hshared hmark
    rcases lookup_append_cases hj with hold | ⟨-, hnew⟩
    · rcases h j u hold hpc hshared hmark with hnone | ⟨k, v, hk, hv⟩
      · exact Or.inl hnone
      · exact Or.inr ⟨k, v, lookup_append_old _ hk, hv⟩
    · exact absurd (hnew ▸ hpc) (simpleBlock2Ioctl_awake k)
  · subst hmv hd
    exact h.advance hw hl (hfits l hl) (simpleBlock2Step_turn hbody)

/-! ## Cover for an exclusive sleeper -/

/-- Call `j` will take a unit, or wake somebody who will, and needs no
wake-up for it that could be the one for `e`. -/
def Covers (q : Queue) (e j : Nat) (l : Call) : Prop :=
  match l.pc with
  | .wait p => j ∉ ahead q e ∧ (p = .asleep → marked q j = false)
  | .decrement => True
  | .wake => True
  | _ => False

/-- There are no more units than calls that cover for `e`. -/
def Covered (c : Conf) (e : Nat) : Prop :=
  ∃ js : List Nat, js.Nodup ∧
    (∀ j ∈ js, ∃ l, c.calls[j]? = some l ∧ Covers c.shared.myWq e j l) ∧
    c.shared.myData.toInt ≤ js.length

theorem covered_of_nonpos {c : Conf} (e : Nat)
    (h : c.shared.myData.toInt ≤ 0) : Covered c e :=
  ⟨[], List.nodup_nil, fun _ hj => absurd hj List.not_mem_nil, h⟩

theorem Covers.mono {q q' : Queue} {e j : Nat} {l : Call}
    (h : Covers q e j l) (hahead : j ∈ ahead q' e → j ∈ ahead q e)
    (hmark : marked q' j = true → marked q j = true) : Covers q' e j l := by
  unfold Covers at h ⊢
  split at h
  · refine ⟨fun hj => h.1 (hahead hj), fun hp => ?_⟩
    cases hm : marked q' j with
    | false => rfl
    | true =>
        have hno := h.2 hp
        rw [hmark hm] at hno
        cases hno
  · trivial
  · trivial
  · exact h

/-- A step lets nobody get ahead of a waiter that it leaves on the queue. -/
theorem Turn.ahead {g g' : Block2} {i e j : Nat} {l l' : Call}
    (h : Turn g i l g' l') (hq : Lined g.myWq) (hie : i ≠ e)
    (he : marked g.myWq e = true) (he' : marked g'.myWq e = true)
    (hj : j ∈ WaitQueue.ahead g'.myWq e) : j ∈ WaitQueue.ahead g.myWq e := by
  cases h with
  | giveUp hpc => exact ahead_finishWait hie hj
  | passTest sig hpc hdata => exact ahead_finishWait hie hj
  | signalled hpc => exact ahead_finishWait hie hj
  | mark hpc =>
      have hsame := ahead_prepareToWait (decide (l.ioctl.cmd = wqEx)) hie he
      exact hsame ▸ hj
  | wake hpc =>
      dsimp only at he' hj
      split at he'
      case isTrue hcmd =>
        rw [if_pos hcmd] at hj
        obtain ⟨f, -, -, -, hsub⟩ := ahead_wake hq he'
        exact hsub j hj
      case isFalse =>
        rw [wakeUpInterruptibleAll_eq_nil] at he'
        cases he'
  | _ => exact hj

/-- The cover stands while the calls in it go on. -/
theorem Covered.keep {c : Conf} {i e : Nat} {l l' : Call} {g : Block2}
    (h : Covered c e) (hl : c.calls[i]? = some l)
    (hahead : ∀ j, j ∈ ahead g.myWq e → j ∈ ahead c.shared.myWq e)
    (hmark : ∀ j, i ≠ j → marked g.myWq j = true →
      marked c.shared.myWq j = true)
    (hdata : g.myData.toInt ≤ c.shared.myData.toInt)
    (hown : Covers c.shared.myWq e i l → Covers g.myWq e i l') :
    Covered ⟨g, c.calls.set i l'⟩ e := by
  obtain ⟨js, honce, hall, hle⟩ := h
  refine ⟨js, honce, fun j hj => ?_, Int.le_trans hdata hle⟩
  obtain ⟨u, hu, hcov⟩ := hall j hj
  by_cases hij : i = j
  · subst hij
    rw [hl, Option.some.injEq] at hu
    subst hu
    exact ⟨l', lookup_set_self hl, hown hcov⟩
  · exact ⟨u, lookup_set_ne _ hij hu, hcov.mono (hahead j) (hmark j hij)⟩

/-- A call that takes its unit leaves the cover. -/
theorem Covered.decrement {c : Conf} {i e : Nat} {l' : Call} {g : Block2}
    (h : Covered c e)
    (hqueue : g.myWq = c.shared.myWq)
    (hdata : g.myData.toInt = c.shared.myData.toInt - 1) :
    Covered ⟨g, c.calls.set i l'⟩ e := by
  obtain ⟨js, honce, hall, hle⟩ := h
  refine ⟨js.erase i, honce.erase i, fun j hj => ?_, ?_⟩
  · obtain ⟨hji, hmem⟩ := (List.Nodup.mem_erase_iff honce).mp hj
    obtain ⟨u, hu, hcov⟩ := hall j hmem
    refine ⟨u, lookup_set_ne _ (fun h => hji h.symm) hu, ?_⟩
    show Covers g.myWq e j u
    rw [hqueue]
    exact hcov
  · have hlen : js.length - 1 ≤ (js.erase i).length := List.le_length_erase
    show g.myData.toInt ≤ ((js.erase i).length : Int)
    omega

/-- A producer that has added one unit joins it. -/
theorem Covered.increment {c : Conf} {i e : Nat} {l l' : Call} {g : Block2}
    (h : Covered c e) (hl : c.calls[i]? = some l) (hpc : l.pc = .increment)
    (hpc' : l'.pc = .wake) (hqueue : g.myWq = c.shared.myWq)
    (hdata : g.myData.toInt ≤ c.shared.myData.toInt + 1) :
    Covered ⟨g, c.calls.set i l'⟩ e := by
  obtain ⟨js, honce, hall, hle⟩ := h
  have hnew : i ∉ js := by
    intro hi
    obtain ⟨u, hu, hcov⟩ := hall i hi
    rw [hl, Option.some.injEq] at hu
    subst hu
    simp [Covers, hpc] at hcov
  refine ⟨i :: js, List.nodup_cons.mpr ⟨hnew, honce⟩, fun j hj => ?_, ?_⟩
  · rcases List.mem_cons.mp hj with rfl | hmem
    · exact ⟨l', lookup_set_self hl, by simp [Covers, hpc']⟩
    · obtain ⟨u, hu, hcov⟩ := hall j hmem
      have hij : i ≠ j := by
        rintro rfl
        exact hnew hmem
      refine ⟨u, lookup_set_ne _ hij hu, ?_⟩
      show Covers g.myWq e j u
      rw [hqueue]
      exact hcov
  · show g.myData.toInt ≤ ((i :: js).length : Int)
    rw [List.length_cons]
    omega

/-- A producer hands its place in the cover to the consumer that it wakes
instead of `e`. -/
theorem Covered.wake {c : Conf} {i e : Nat} {l l' : Call} {g : Block2}
    (h : Covered c e) (hw : Waiting c) (hl : c.calls[i]? = some l)
    (hpc : l.pc = .wake)
    (hqueue : g.myWq = wakeUpInterruptible c.shared.myWq)
    (hdata : g.myData = c.shared.myData) (he : marked g.myWq e = true) :
    Covered ⟨g, c.calls.set i l'⟩ e := by
  obtain ⟨js, honce, hall, hle⟩ := h
  rw [hqueue] at he
  obtain ⟨f, hf, hahead, hgone, hsub⟩ := ahead_wake hw.lined he
  obtain ⟨u, hu, hwait, -⟩ := hw.entry f hf
  have hif : i ≠ f.waiter := by
    intro heq
    rw [← heq, hl, Option.some.injEq] at hu
    subst hu
    rcases hwait with h | h <;> rw [hpc] at h <;> cases h
  have hnew : f.waiter ∉ js := by
    intro hmem
    obtain ⟨v, hv, hcov⟩ := hall f.waiter hmem
    rw [hu, Option.some.injEq] at hv
    subst hv
    rcases hwait with h | h <;> simp [Covers, h, hahead] at hcov
  refine ⟨f.waiter :: js.erase i, ?_, fun j hj => ?_, ?_⟩
  · exact List.nodup_cons.mpr
      ⟨fun hmem => hnew (List.mem_of_mem_erase hmem), honce.erase i⟩
  · show ∃ v, (c.calls.set i l')[j]? = some v ∧ Covers g.myWq e j v
    rw [hqueue]
    rcases List.mem_cons.mp hj with rfl | hrest
    · refine ⟨u, lookup_set_ne _ hif hu, ?_⟩
      have hnot : f.waiter ∉ ahead (wakeUpInterruptible c.shared.myWq) e := by
        intro hin
        have hmark := marked_of_ahead hin
        rw [hgone] at hmark
        cases hmark
      rcases hwait with h | h <;> simp [Covers, h, hnot, hgone]
    · obtain ⟨hji, hmem⟩ := (List.Nodup.mem_erase_iff honce).mp hrest
      obtain ⟨v, hv, hcov⟩ := hall j hmem
      exact ⟨v, lookup_set_ne _ (fun h => hji h.symm) hv,
        hcov.mono (hsub j) fun hm =>
          marked_of_sublist (wakeUpInterruptible_sublist _) hm⟩
  · have hlen : js.length - 1 ≤ (js.erase i).length := List.le_length_erase
    show g.myData.toInt ≤ ((f.waiter :: js.erase i).length : Int)
    rw [List.length_cons, hdata]
    omega

/-! ## Wake-ups that match -/

/-- A `WQ_WAKE_UP` adds one unit, or its wake-up leaves nobody on the
queue. -/
def Matched (c : Conf) : Move → Prop
  | .issue _ => True
  | .advance i _ =>
      ∀ l ∈ c.calls[i]?, l.pc = .wake → l.ioctl.cmd = wqWakeUp →
        l.ioctl.arg = 1 ∨ wakeUpInterruptible c.shared.myWq = []

instance (c : Conf) : ∀ mv, Decidable (Matched c mv)
  | .issue _ => inferInstanceAs (Decidable True)
  | .advance i _ =>
      inferInstanceAs (Decidable (∀ l ∈ c.calls[i]?, _ → _ → _))

/-- The producer adds one unit and will wake one exclusive consumer. -/
def oneForOne (l : Call) : Prop := l.ioctl.cmd = wqWakeUp ∧ l.ioctl.arg = 1

/-- Some other producer has its wake-up next. -/
def SweepUnderWay (c : Conf) : Prop :=
  ∃ (i : Nat) (l : Call), c.calls[i]? = some l ∧ l.pc = .wake ∧ ¬ oneForOne l

/-- Every sleeper has its cover, or a wake-up coming that leaves nobody. -/
def CoveredAll (c : Conf) : Prop :=
  ∀ e, Asleep c e → SweepUnderWay c ∨ Covered c e

theorem loaded_coveredAll : CoveredAll loaded := by
  rintro e ⟨⟨l, hl, -⟩, -⟩
  simp [loaded, start] at hl

/-- A wake-up of another producer leaves nobody. -/
theorem Turn.sweep {c : Conf} {i : Nat} {l l' : Call} {g : Block2}
    {sig : Bool} (hst : Turn c.shared i l g l') (hl : c.calls[i]? = some l)
    (hwake : l.pc = .wake) (hnot : ¬ oneForOne l)
    (hmatched : Matched c (.advance i sig)) : g.myWq = [] := by
  cases hst with
  | wake hpc =>
      show (if l.ioctl.cmd = wqWakeUp then wakeUpInterruptible c.shared.myWq
        else wakeUpInterruptibleAll c.shared.myWq) = []
      split
      case isTrue hcmd =>
        rcases hmatched l hl hpc hcmd with harg | hnil
        · exact absurd ⟨hcmd, harg⟩ hnot
        · exact hnil
      case isFalse => exact wakeUpInterruptibleAll_eq_nil _
  | _ => simp_all

/-- What a step makes of the cover for another call, which sleeps on. -/
theorem Covered.turn {c : Conf} {i e : Nat} {l l' : Call} {g : Block2}
    (h : Covered c e) (hw : Waiting c) (hl : c.calls[i]? = some l)
    (hfits : l.pc = .decrement →
      -0x8000000000000000 < c.shared.myData.toInt)
    (hinc : l.pc = .increment → oneForOne l)
    (hwake : l.pc = .wake → oneForOne l) (hie : i ≠ e)
    (hmark : marked g.myWq e = true) (hst : Turn c.shared i l g l') :
    Covered ⟨g, c.calls.set i l'⟩ e := by
  have hwas : marked c.shared.myWq e = true := hst.marked_ne hie hmark
  have hahead : ∀ j, j ∈ ahead g.myWq e → j ∈ ahead c.shared.myWq e :=
    fun j hj => hst.ahead hw.lined hie hwas hmark hj
  have hmarks : ∀ j, i ≠ j → marked g.myWq j = true →
      marked c.shared.myWq j = true :=
    fun j hij hj => hst.marked_ne hij hj
  -- a waiter that goes on waiting awake covers for `e` as before
  have hwaits : ∀ p p', l.pc = .wait p → l'.pc = .wait p' →
      p' ≠ .asleep → Covers c.shared.myWq e i l → Covers g.myWq e i l' := by
    intro p p' hpc hpc' hawake hcov
    simp only [Covers, hpc] at hcov
    simp only [Covers, hpc']
    exact ⟨fun hi => hcov.1 (hahead i hi), fun hp => absurd hp hawake⟩
  have hkeep : g.myData.toInt ≤ c.shared.myData.toInt →
      (Covers c.shared.myWq e i l → Covers g.myWq e i l') →
        Covered ⟨g, c.calls.set i l'⟩ e :=
    h.keep hl hahead hmarks
  cases hst with
  | passEntry hpc hdata => exact hkeep (Int.le_refl _) fun _ => trivial
  | passTest sig hpc hdata => exact hkeep (Int.le_refl _) fun _ => trivial
  | noUnit hpc hdata =>
      exact hkeep (Int.le_refl _) (hwaits _ _ hpc rfl (by simp))
  | giveUp hpc =>
      exact hkeep (Int.le_refl _) (hwaits _ _ hpc rfl (by simp))
  | mark hpc =>
      exact hkeep (Int.le_refl _) (hwaits _ _ hpc rfl (by simp))
  | signalled hpc =>
      exact hkeep (Int.le_refl _) (hwaits _ _ hpc rfl (by simp))
  | woken hpc hnot =>
      exact hkeep (Int.le_refl _) (hwaits _ _ hpc rfl (by simp))
  | interrupted hpc hdata => exact covered_of_nonpos e hdata
  | sleep hpc hdata => exact covered_of_nonpos e hdata
  | readBack code hpc =>
      refine hkeep (Int.le_refl _) fun hcov => ?_
      simp [Covers, hpc] at hcov
  | decrement hpc => exact h.decrement rfl (toInt_pred_of_lt (hfits hpc))
  | increment hpc =>
      refine h.increment hl hpc rfl rfl ?_
      show (c.shared.myData + l.ioctl.arg).toInt ≤ _
      rw [(hinc hpc).2]
      exact toInt_succ_le _
  | wake hpc =>
      exact h.wake hw hl hpc (if_pos (hwake hpc).1) rfl hmark

theorem CoveredAll.advance {c : Conf} {i : Nat} {l l' : Call} {g : Block2}
    {sig : Bool} (h : CoveredAll c) (hw : Waiting c)
    (hl : c.calls[i]? = some l)
    (hfits : l.pc = .decrement →
      -0x8000000000000000 < c.shared.myData.toInt)
    (hmatched : Matched c (.advance i sig))
    (hst : Turn c.shared i l g l') : CoveredAll ⟨g, c.calls.set i l'⟩ := by
  rintro e ⟨⟨u, hu, hpc⟩, hmark⟩
  rcases lookup_set_cases hl hu with ⟨-, hown⟩ | ⟨hie, hold⟩
  · subst hown
    exact Or.inr (covered_of_nonpos e (hst.sleeps hpc))
  · have hwake : l.pc = .wake → oneForOne l := by
      intro hwake
      apply Classical.byContradiction
      intro hnot
      have hnil := hst.sweep hl hwake hnot hmatched
      have hmark : marked g.myWq e = true := hmark
      rw [hnil] at hmark
      cases hmark
    have hasleep : Asleep c e := ⟨⟨u, hold, hpc⟩, hst.marked_ne hie hmark⟩
    rcases h e hasleep with ⟨k, v, hk, hv, hnot⟩ | hcovered
    · have hik : i ≠ k := by
        rintro rfl
        rw [hl, Option.some.injEq] at hk
        subst hk
        exact hnot (hwake hv)
      exact Or.inl ⟨k, v, lookup_set_ne _ hik hk, hv, hnot⟩
    · by_cases hbig : l.pc = .increment ∧ ¬ oneForOne l
      · refine Or.inl ⟨i, l', lookup_set_self hl, ?_⟩
        cases hst with
        | increment _ => exact ⟨rfl, hbig.2⟩
        | _ => simp_all
      · have hinc : l.pc = .increment → oneForOne l := fun hpc =>
          Classical.byContradiction fun hnot => hbig ⟨hpc, hnot⟩
        exact Or.inr
          (hcovered.turn hw hl hfits hinc hwake hie hmark hst)

theorem CoveredAll.step {c d : Conf} {mv : Move} (h : CoveredAll c)
    (hw : Waiting c) (hfits : NoUnderflow c mv) (hmatched : Matched c mv)
    (hst : SimpleBlock2.step c mv = some d) : CoveredAll d := by
  rcases step_cases hst with
    ⟨k, -, hd⟩ | ⟨i, sig, l, g, l', hmv, hl, hbody, hd⟩
  · subst hd
    rintro e ⟨⟨u, hu, hpc⟩, hmark⟩
    rcases lookup_append_cases hu with hold | ⟨-, hnew⟩
    · rcases h e ⟨⟨u, hold, hpc⟩, hmark⟩ with
        ⟨k', v, hk, hv⟩ | ⟨js, honce, hall, hle⟩
      · exact Or.inl ⟨k', v, lookup_append_old _ hk, hv⟩
      · refine Or.inr ⟨js, honce, fun j hj => ?_, hle⟩
        obtain ⟨v, hv, hcov⟩ := hall j hj
        exact ⟨v, lookup_append_old _ hv, hcov⟩
    · exact absurd (hnew ▸ hpc) (simpleBlock2Ioctl_awake k)
  · subst hmv hd
    exact h.advance hw hl (hfits l hl) hmatched (simpleBlock2Step_turn hbody)

/-! ## The result -/

/-- The call has returned. -/
def Call.returned (l : Call) : Bool :=
  match l.pc with
  | .returned _ => true
  | _ => false

theorem Call.pc_of_returned {l : Call} (h : l.returned = true) :
    ∃ code, l.pc = .returned code := by
  unfold returned at h
  split at h
  case h_1 code hpc => exact ⟨code, hpc⟩
  case h_2 => cases h

/-- Every call has returned or is asleep in its wait. -/
def Settled (c : Conf) : Prop :=
  ∀ (i : Nat) (l : Call), c.calls[i]? = some l →
    l.returned = true ∨ Asleep c i

instance (c : Conf) : Decidable (Settled c) :=
  decidable_of_iff
    (∀ i < c.calls.length, ∀ l ∈ c.calls[i]?,
      l.returned = true ∨ Asleep c i)
    ⟨fun h i l hl => h i (lookup_lt hl) l hl, fun h i _ l hl => h i l hl⟩

/-- In a settled state there is no cover. -/
theorem Settled.not_covered {c : Conf} {e : Nat} (h : Settled c)
    (hcovered : Covered c e) : c.shared.myData.toInt ≤ 0 := by
  obtain ⟨js, -, hall, hle⟩ := hcovered
  cases js with
  | nil => exact hle
  | cons j js =>
      obtain ⟨l, hl, hcov⟩ := hall j List.mem_cons_self
      rcases h j l hl with hret | ⟨⟨u, hu, hpc⟩, hmark⟩
      · obtain ⟨code, hpc⟩ := Call.pc_of_returned hret
        simp [Covers, hpc] at hcov
      · rw [hl, Option.some.injEq] at hu
        subst hu
        simp [Covers, hpc, hmark] at hcov

theorem Settled.not_wake {c : Conf} (h : Settled c) {i : Nat} {l : Call}
    (hl : c.calls[i]? = some l) : l.pc ≠ .wake := by
  intro hwake
  rcases h i l hl with hret | ⟨⟨u, hu, hpc⟩, -⟩
  · obtain ⟨code, hpc⟩ := Call.pc_of_returned hret
    rw [hwake] at hpc
    cases hpc
  · rw [hl, Option.some.injEq] at hu
    rw [← hu, hwake] at hpc
    cases hpc

/-- In every run in which no decrement wraps around, a state in which every
call has returned or sleeps and `my_data > 0` has no non-exclusive sleeper;
and it has no sleeper at all if every `WQ_WAKE_UP` of the run adds one unit
or leaves nobody on the queue. -/
theorem settled_sleepers {c : Conf} {mvs : List Move}
    (hrun : run step loaded mvs = some c)
    (hfits : Along step NoUnderflow loaded mvs) (hsettled : Settled c)
    (hdata : 0 < c.shared.myData.toInt) :
    (∀ (i : Nat) (l : Call), c.calls[i]? = some l → Asleep c i →
        l.ioctl.cmd = wqEx) ∧
      (Along step Matched loaded mvs → ∀ i, ¬ Asleep c i) := by
  constructor
  · have hinv := run_induct_along (P := fun c => Waiting c ∧ Heeded c)
      (fun _ _ _ h hC hst => ⟨h.1.step hst, h.2.step h.1 hC hst⟩)
      ⟨loaded_waiting, loaded_heeded⟩ hfits hrun
    rintro i l hl ⟨⟨u, hu, hpc⟩, hmark⟩
    rw [hl, Option.some.injEq] at hu
    subst hu
    apply Classical.byContradiction
    intro hshared
    rcases hinv.2 i l hl hpc hshared hmark with hnone | ⟨k, v, hk, hv⟩
    · omega
    · exact hsettled.not_wake hk hv
  · intro hmatched i hasleep
    have hinv := run_induct_along (P := fun c => Waiting c ∧ CoveredAll c)
      (fun _ _ _ h hC hst => ⟨h.1.step hst, h.2.step h.1 hC.1 hC.2 hst⟩)
      ⟨loaded_waiting, loaded_coveredAll⟩ (hfits.and hmatched) hrun
    rcases hinv.2 i hasleep with ⟨k, v, hk, hv, -⟩ | hcovered
    · exact hsettled.not_wake hk hv
    · have hnone := hsettled.not_covered hcovered
      omega

/-- An exclusive consumer sleeps, three units are added for everybody, and it
takes one. -/
def threeForAllRun : List Move :=
  List.flatten
    [ .issue ⟨wqEx, 0⟩ :: List.replicate 3 (.advance 0 false)
    , .issue ⟨wqWakeUpAll, 3⟩ :: List.replicate 3 (.advance 1 false)
    , List.replicate 5 (.advance 0 false) ]

theorem settled_sleepers_threeForAllRun :
    ∃ c, run step loaded threeForAllRun = some c ∧
      c.shared.myData.toInt = 2 ∧ ∀ i, ¬ Asleep c i := by
  have hend : (run step loaded threeForAllRun).map (fun c =>
      (c.shared.myData.toInt, decide (Settled c))) = some (2, true) := by
    decide +kernel
  obtain ⟨c, hrun, hc⟩ := Option.map_eq_some_iff.mp hend
  rw [Prod.mk.injEq] at hc
  have hall := settled_sleepers hrun (by decide +kernel)
    (of_decide_eq_true hc.2) (by omega)
  exact ⟨c, hrun, hc.1, hall.2 (by decide +kernel)⟩

/-- Two exclusive consumers sleep, and two units are added by one
`WQ_WAKE_UP`. -/
def twoUnitsRun : List Move :=
  List.flatten
    [ .issue ⟨wqEx, 0⟩ :: List.replicate 3 (.advance 0 false)
    , .issue ⟨wqEx, 0⟩ :: List.replicate 3 (.advance 1 false)
    , .issue ⟨wqWakeUp, 2⟩ :: List.replicate 3 (.advance 2 false)
    , List.replicate 5 (.advance 0 false) ]

/-- The sum of two amounts wraps around while a consumer is about to take its
unit. -/
def wrappedSumRun : List Move :=
  List.flatten
    [ .issue ⟨wqWakeUpAll, 0x7fffffffffffffff⟩ ::
        List.replicate 3 (.advance 0 false)
    , [.issue ⟨wq, 0⟩, .advance 1 false]
    , .issue ⟨wqWakeUpAll, 1⟩ :: List.replicate 3 (.advance 2 false)
    , .issue ⟨wq, 0⟩ :: List.replicate 3 (.advance 3 false)
    , List.replicate 2 (.advance 1 false) ]

/-- One of the exclusive consumers sleeps on beside a unit.  So does the
consumer that has found the wrapped sum negative, once the decrement has
wrapped it back. -/
theorem sleepers_beside_units :
    (∃ c, run step loaded twoUnitsRun = some c ∧ Settled c ∧
        c.shared.myData.toInt = 1 ∧ Asleep c 1) ∧
      ∃ c, run step loaded wrappedSumRun = some c ∧ Settled c ∧
        c.shared.myData.toInt = 0x7fffffffffffffff ∧ Asleep c 3 := by
  refine ⟨?_, ?_⟩
  · have hend : (run step loaded twoUnitsRun).map (fun c =>
        (decide (Settled c), c.shared.myData.toInt, decide (Asleep c 1))) =
          some (true, 1, true) := by
      decide +kernel
    obtain ⟨c, hrun, hc⟩ := Option.map_eq_some_iff.mp hend
    simp only [Prod.mk.injEq, decide_eq_true_eq] at hc
    exact ⟨c, hrun, hc⟩
  · have hend : (run step loaded wrappedSumRun).map (fun c =>
        (decide (Settled c), c.shared.myData.toInt, decide (Asleep c 3))) =
          some (true, 0x7fffffffffffffff, true) := by
      decide +kernel
    obtain ⟨c, hrun, hc⟩ := Option.map_eq_some_iff.mp hend
    simp only [Prod.mk.injEq, decide_eq_true_eq] at hc
    exact ⟨c, hrun, hc⟩

end EmbeddedSystem.Labs.SimpleBlock2
