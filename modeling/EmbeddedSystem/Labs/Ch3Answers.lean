import EmbeddedSystem.Labs.Ch3Queue

/-!
# What the callers of the ch3 queue are told

`ch3_ioctl` returns 0 for every call that gets to its end.  So a call is
all-or-nothing exactly when the environment lets it do all: when its
allocations succeed and its user copy leaves nothing behind, or, for a write,
nothing but zeros (`allOrNothing_iff`).  A write whose copy stops before that
appends the torn message all the same, a read whose copy stops early has taken
the message off the list, and both report success.
-/

set_option autoImplicit false

namespace EmbeddedSystem.Labs.Ch3Queue

open EmbeddedSystem.Verified
open EmbeddedSystem.Verified.Uaccess
open EmbeddedSystem.Verified.Transition
open EmbeddedSystem.Verified.CallPool
open EmbeddedSystem.Verified.NodeHeap (Hold Owned)
open EmbeddedSystem.Verified.FifoHistory

/-! ## How far a call has got in the history -/

/-- The read has had its answer, and `ret` says how much of it was not copied
to the user. -/
def Answered (g : Ch3) (i : Nat) (r : ReadCall) : Prop :=
  ∃ t u left, (opsOf i g.history = [.dequeue i t] ∨
      (opsOf i g.history = [.empty i] ∧ t = emptyMsg)) ∧
    r.ret = some left ∧ r.userBuf = copyUser u t left

def ReadOk (g : Ch3) (i : Nat) (r : ReadCall) : Prop :=
  match r.pc with
  | .lock => opsOf i g.history = [] ∧ r.ret = none
  | .copyEmpty => opsOf i g.history = [.empty i] ∧ r.ret = none
  | .copy _ t => opsOf i g.history = [.dequeue i t] ∧ r.ret = none
  | .freeMsg _ => Answered g i r
  | .freeNode _ => Answered g i r
  | .returned => Answered g i r

def WriteOk (g : Ch3) (i : Nat) (w : WriteCall) : Prop :=
  match w.pc with
  | .allocNode => opsOf i g.history = [] ∧ w.ret = none
  | .allocMsg _ => opsOf i g.history = [] ∧ w.ret = none
  | .copy _ => opsOf i g.history = [] ∧ w.ret = none
  | .oops _ => opsOf i g.history = [] ∧ w.ret = none
  | .lock n => opsOf i g.history = [] ∧ ∃ left, w.ret = some left ∧
      g.contents n = some (copyFromUser w.userBuf left)
  | .returned => ∃ left, w.ret = some left ∧
      opsOf i g.history = [.enqueue i (copyFromUser w.userBuf left)]

/-- What call `i` has done so far is what its next statement presupposes. -/
def CallOk (g : Ch3) (i : Nat) : Call → Prop
  | .read r => ReadOk g i r
  | .write w => WriteOk g i w
  | .other => opsOf i g.history = []

/-- The shared part of the invariant, when `n` calls were issued. -/
def HistoryOk (n : Nat) (g : Ch3) : Prop :=
  Linear g ∧ ∀ op ∈ g.history, op.who < n

theorem ReadStep.history {g g' : Ch3} {i : Nat} {r r' : ReadCall}
    {o : Outcome} (h : ReadStep g i r o g' r') :
    g'.history = g.history ∨
      ∃ op, op.who = i ∧ g'.history = g.history ++ [op] := by
  cases h with
  | foundEmpty => exact Or.inr ⟨_, rfl, rfl⟩
  | take => exact Or.inr ⟨_, rfl, rfl⟩
  | copyEmpty => exact Or.inl rfl
  | copy => exact Or.inl rfl
  | freeMsg => exact Or.inl rfl
  | freeNode => exact Or.inl rfl

theorem WriteStep.history {g g' : Ch3} {i : Nat} {w w' : WriteCall}
    {o : Outcome} (h : WriteStep g i w o g' w') :
    g'.history = g.history ∨
      ∃ op, op.who = i ∧ g'.history = g.history ++ [op] := by
  cases h with
  | noNode => exact Or.inl rfl
  | allocNode => exact Or.inl rfl
  | noMsg => exact Or.inl rfl
  | allocMsg => exact Or.inl rfl
  | copy => exact Or.inl rfl
  | append => exact Or.inr ⟨_, rfl, rfl⟩

/-- A step of call `i` adds nothing but its own operation to the history. -/
theorem ch3Step_history {g g' : Ch3} {i : Nat} {l l' : Call} {o : Outcome}
    (h : ch3Step g i l o = some (g', l')) :
    g'.history = g.history ∨
      ∃ op, op.who = i ∧ g'.history = g.history ++ [op] := by
  rcases ch3Step_cases h with
    ⟨r, r', hr, hr', hread⟩ | ⟨w, w', hw, hw', hwrite⟩
  · exact hread.history
  · exact hwrite.history

theorem ch3Step_opsOf_ne {g g' : Ch3} {i j : Nat} {l l' : Call} {o : Outcome}
    (h : ch3Step g i l o = some (g', l')) (hij : i ≠ j) :
    opsOf j g'.history = opsOf j g.history := by
  rcases ch3Step_history h with hsame | ⟨op, hwho, happ⟩
  · rw [hsame]
  · rw [happ, opsOf_concat_ne _ (by rw [hwho]; exact hij)]

theorem HistoryOk.own {c : Conf} {i : Nat} {l l' : Call} {o : Outcome}
    {g' : Ch3} (hb : Ledger c) (h : HistoryOk c.calls.length c.shared)
    (hl : c.calls[i]? = some l)
    (hst : ch3Step c.shared i l o = some (g', l')) :
    HistoryOk c.calls.length g' := by
  have hhold := lookup_map Call.hold hl
  constructor
  · rcases ch3Step_cases hst with
      ⟨r, r', hr, hr', hread⟩ | ⟨w, w', hw, hw', hwrite⟩
    · rw [hr] at hhold
      exact h.1.readStep hb hhold hread
    · rw [hw] at hhold
      exact h.1.writeStep hb hhold hwrite
  · rcases ch3Step_history hst with hsame | ⟨op, hwho, happ⟩
    · rw [hsame]
      exact h.2
    · rw [happ]
      intro op' hop'
      rcases List.mem_append.mp hop' with hold | hnew
      · exact h.2 op' hold
      · rw [List.mem_singleton.mp hnew, hwho]
        exact lookup_lt hl

theorem ReadOk.own {g g' : Ch3} {i : Nat} {r r' : ReadCall} {o : Outcome}
    (h : ReadOk g i r) (hst : ReadStep g i r o g' r') : ReadOk g' i r' := by
  unfold ReadOk at h
  cases hst with
  | foundEmpty hpc hempty =>
      rw [hpc] at h
      exact ⟨opsOf_first rfl h.1, h.2⟩
  | take n b rest t hpc hlist hptr hget =>
      rw [hpc] at h
      exact ⟨opsOf_first rfl h.1, h.2⟩
  | copyEmpty hpc =>
      rw [hpc] at h
      exact ⟨emptyMsg, r.userBuf, o.left, Or.inr ⟨h.1, rfl⟩, rfl, rfl⟩
  | copy n t hpc =>
      rw [hpc] at h
      exact ⟨t, r.userBuf, o.left, Or.inl h.1, rfl, rfl⟩
  | freeMsg n b hpc hptr =>
      rw [hpc] at h
      exact h
  | freeNode n hpc =>
      rw [hpc] at h
      exact h

theorem WriteOk.own {g g' : Ch3} {i : Nat} {w w' : WriteCall} {o : Outcome}
    {hs : List Hold} (ho : Owned MsgList.msg g.heap hs)
    (hl : hs[i]? = some w.pc.hold) (h : WriteOk g i w)
    (hst : WriteStep g i w o g' w') : WriteOk g' i w' := by
  unfold WriteOk at h
  cases hst with
  | noNode hpc hmem =>
      rw [hpc] at h
      exact h
  | allocNode hpc hmem =>
      rw [hpc] at h
      exact h
  | noMsg n hpc hmem =>
      rw [hpc] at h
      exact h
  | allocMsg n hpc hmem =>
      rw [hpc] at h
      exact h
  | copy n b hpc hptr =>
      rw [hpc] at h
      rw [hpc] at hl
      exact ⟨h.1, o.left, rfl, ho.contents_store hl hptr _⟩
  | append n m hpc hcont =>
      rw [hpc] at h
      obtain ⟨hnone, left, hret, hmsg⟩ := h
      rw [hcont, Option.some.injEq] at hmsg
      rw [hmsg]
      exact ⟨left, hret, opsOf_first rfl hnone⟩

/-- Another call's step leaves an assertion standing. -/
theorem CallOk.other {c : Conf} {i j : Nat} {l l' m : Call} {o : Outcome}
    {g' : Ch3} (hb : Ledger c) (hij : i ≠ j) (hl : c.calls[i]? = some l)
    (hm : c.calls[j]? = some m) (h : CallOk c.shared j m)
    (hst : ch3Step c.shared i l o = some (g', l')) : CallOk g' j m := by
  have hops := ch3Step_opsOf_ne hst hij
  cases m with
  | other => exact hops.trans h
  | read r =>
      have h : ReadOk c.shared j r := h
      show ReadOk g' j r
      unfold ReadOk Answered at *
      rw [hops]
      exact h
  | write w =>
      have h : WriteOk c.shared j w := h
      show WriteOk g' j w
      unfold WriteOk at *
      rw [hops]
      cases hpc : w.pc with
      | lock n =>
          rw [hpc] at h
          obtain ⟨hnone, left, hret, hmsg⟩ := h
          refine ⟨hnone, left, hret, ?_⟩
          have hholds : (Call.write w).hold = .full n := by
            show w.pc.hold = _
            rw [hpc]
            rfl
          have hother := lookup_map Call.hold hm
          rw [hholds] at hother
          exact hb.contents_step (lookup_map Call.hold hl) (ch3Step_heapStep hst)
            (hb.node_ne hij (lookup_map Call.hold hl) hother rfl) hmsg
      | _ =>
          rw [hpc] at h
          exact h

theorem enter_callOk {n : Nat} {g : Ch3} (k : Ioctl) (h : HistoryOk n g) :
    CallOk g n (ch3Ioctl k) := by
  have hnone : opsOf n g.history = [] := by
    apply List.filter_eq_nil_iff.mpr
    intro op hop
    have hlt := h.2 op hop
    rw [decide_eq_true_iff]
    omega
  unfold ch3Ioctl
  split
  · exact ⟨hnone, rfl⟩
  · split
    · exact ⟨hnone, rfl⟩
    · exact hnone

/-- A call that has enqueued a message is a write that has copied it. -/
theorem CallOk.enqueued {g : Ch3} {i : Nat} {l : Call} {m : MsgSt}
    (h : CallOk g i l) (hops : .enqueue i m ∈ opsOf i g.history) :
    ∃ w left, l = .write w ∧ w.ret = some left ∧
      m = copyFromUser w.userBuf left := by
  cases l with
  | other =>
      rw [show opsOf i g.history = [] from h] at hops
      cases hops
  | read r =>
      have h : ReadOk g i r := h
      have hanswered : ¬ Answered g i r := by
        rintro ⟨t, u, left, hans | ⟨hans, -⟩, -⟩
        · rw [hans] at hops
          simp at hops
        · rw [hans] at hops
          simp at hops
      unfold ReadOk at h
      split at h
      · rw [h.1] at hops
        cases hops
      · rw [h.1] at hops
        simp at hops
      · rw [h.1] at hops
        simp at hops
      · exact absurd h hanswered
      · exact absurd h hanswered
      · exact absurd h hanswered
  | write w =>
      have h : WriteOk g i w := h
      have hnone : opsOf i g.history ≠ [] := List.ne_nil_of_mem hops
      unfold WriteOk at h
      split at h
      · exact absurd h.1 hnone
      · exact absurd h.1 hnone
      · exact absurd h.1 hnone
      · exact absurd h.1 hnone
      · exact absurd h.1 hnone
      · obtain ⟨left, hret, hlist⟩ := h
        rw [hlist, List.mem_singleton, Op.enqueue.injEq] at hops
        exact ⟨w, left, rfl, hret, hops.2⟩

theorem callOk_preserved :
    Preserved ch3Ioctl ch3Step Ledger HistoryOk CallOk := by
  refine
    { issue := fun n g h => ⟨h.1, fun op hop => ?_⟩
      enter := fun n g k h => enter_callOk k h
      own := fun c i l o g' l' hb h hl hok hst => ?_
      other := fun c i l o g' l' j m hb _ hij hl _ hm hok hst =>
        hok.other hb hij hl hm hst }
  · exact Nat.lt_succ_of_lt (h.2 op hop)
  · refine ⟨h.own hb hl hst, ?_⟩
    rcases ch3Step_cases hst with
      ⟨r, r', rfl, rfl, hread⟩ | ⟨w, w', rfl, rfl, hwrite⟩
    · exact ReadOk.own hok hread
    · exact WriteOk.own hb (lookup_map Call.hold hl) hok hwrite

/-- The invariant of every reachable state. -/
def Invariant (c : Conf) : Prop := Ledger c ∧ Annotated HistoryOk CallOk c

theorem invariant_loaded : Invariant loaded :=
  ⟨loaded_ledger,
    annotated_start ⟨⟨[], legal_nil, rfl⟩, fun op hop => by cases hop⟩⟩

theorem invariant_step (c : Conf) (mv : Move) (d : Conf) (h : Invariant c)
    (hst : step c mv = some d) : Invariant d :=
  ⟨ledger_step c mv d h.1 hst, Annotated.step callOk_preserved h.1 h.2 hst⟩

/-! ## What the environment lets a call do -/

/-- No allocation fails in the step, and a user copy leaves nothing behind;
`copy_from_user` sets to zero what it leaves, so a write may leave zeros. -/
def Call.clean (o : Outcome) : Call → Bool
  | .read ⟨_, _, .copyEmpty⟩ => o.left = 0
  | .read ⟨_, _, .copy _ _⟩ => o.left = 0
  | .write ⟨_, _, .allocNode⟩ => !o.nomem
  | .write ⟨_, _, .allocMsg _⟩ => !o.nomem
  | .write ⟨userBuf, _, .copy _⟩ => zeroTail userBuf o.left
  | _ => true

/-- The step is none of call `i`, or a clean one. -/
def Clean (i : Nat) (c : Conf) : Move → Prop
  | .issue _ => True
  | .advance j o => j = i → ∀ l ∈ c.calls[j]?, l.clean o = true

instance (i : Nat) (c : Conf) : ∀ mv, Decidable (Clean i c mv)
  | .issue _ => inferInstanceAs (Decidable True)
  | .advance j o =>
      inferInstanceAs (Decidable
        (j = i → ∀ l ∈ c.calls[j]?, l.clean o = true))

/-- No allocation fails, and a user copy leaves nothing behind. -/
def Outcome.smooth (o : Outcome) : Bool := !o.nomem && decide (o.left = 0)

theorem clean_of_smooth {o : Outcome} (ho : o.smooth = true) (l : Call) :
    l.clean o = true := by
  have hboth : o.nomem = false ∧ o.left = 0 := by
    simpa [Outcome.smooth] using ho
  unfold Call.clean
  split <;> simp [hboth.1, hboth.2]

/-- Nothing goes wrong in the move. -/
def smoothMove : Move → Bool
  | .issue _ => true
  | .advance _ o => o.smooth

/-- Where nothing goes wrong at all, nothing goes wrong for call `i`. -/
theorem clean_of_smoothMoves {mvs : List Move}
    (h : mvs.all smoothMove = true) (i : Nat) (c : Conf) :
    Along step (Clean i) c mvs := by
  apply along_of_forall
  intro mv hmv s
  have hsmooth := List.all_eq_true.mp h mv hmv
  cases mv with
  | issue k => trivial
  | advance j o => exact fun _ m _ => clean_of_smooth hsmooth m

/-- Something has gone wrong for the call: an allocation, or its copy. -/
def Call.spoilt : Call → Bool
  | .read r => r.ret.any (· ≠ 0)
  | .write ⟨_, _, .oops _⟩ => true
  | .write w => w.ret.any fun left => !zeroTail w.userBuf left
  | .other => false

theorem ReadStep.spoilt {g g' : Ch3} {i : Nat} {r r' : ReadCall}
    {o : Outcome} (hok : ReadOk g i r) (h : ReadStep g i r o g' r') :
    (Call.read r').spoilt = true ↔
      (Call.read r).spoilt = true ∨ (Call.read r).clean o = false := by
  obtain ⟨userBuf, ret, pc⟩ := r
  unfold ReadOk at hok
  cases h with
  | foundEmpty hpc hempty =>
      cases hpc
      simp [Call.spoilt, Call.clean]
  | take n b rest t hpc hlist hptr hget =>
      cases hpc
      simp [Call.spoilt, Call.clean]
  | copyEmpty hpc =>
      cases hpc
      have hret : ret = none := hok.2
      simp [Call.spoilt, Call.clean, hret]
  | copy n t hpc =>
      cases hpc
      have hret : ret = none := hok.2
      simp [Call.spoilt, Call.clean, hret]
  | freeMsg n b hpc hptr =>
      cases hpc
      simp [Call.spoilt, Call.clean]
  | freeNode n hpc =>
      cases hpc
      simp [Call.spoilt, Call.clean]

theorem WriteStep.spoilt {g g' : Ch3} {i : Nat} {w w' : WriteCall}
    {o : Outcome} (hok : WriteOk g i w) (h : WriteStep g i w o g' w') :
    (Call.write w').spoilt = true ↔
      (Call.write w).spoilt = true ∨ (Call.write w).clean o = false := by
  obtain ⟨userBuf, ret, pc⟩ := w
  unfold WriteOk at hok
  cases h with
  | noNode hpc hmem =>
      cases hpc
      simp [Call.spoilt, Call.clean, hmem]
  | allocNode hpc hmem =>
      cases hpc
      simp [Call.spoilt, Call.clean, hmem]
  | noMsg n hpc hmem =>
      cases hpc
      simp [Call.spoilt, Call.clean, hmem]
  | allocMsg n hpc hmem =>
      cases hpc
      simp [Call.spoilt, Call.clean, hmem]
  | copy n b hpc hptr =>
      cases hpc
      have hret : ret = none := hok.2
      simp [Call.spoilt, Call.clean, hret]
  | append n m hpc hcont =>
      cases hpc
      simp [Call.spoilt, Call.clean]

/-- Call `i` is spoilt. -/
def Spoilt (i : Nat) (c : Conf) : Prop :=
  ∃ l : Call, c.calls[i]? = some l ∧ l.spoilt = true

theorem spoilt_step {i : Nat} (c : Conf) (mv : Move) (d : Conf)
    (h : Invariant c) (hst : step c mv = some d) :
    Spoilt i d ↔ Spoilt i c ∨ ¬ Clean i c mv := by
  rcases step_cases hst with
    ⟨k, hmv, hd⟩ | ⟨j, o, l, g, l', hmv, hl, hb, hd⟩
  · subst hmv hd
    have hnew : (ch3Ioctl k).spoilt = false := by
      unfold ch3Ioctl
      split
      · rfl
      · split <;> rfl
    constructor
    · rintro ⟨l, hl, hs⟩
      rcases lookup_append_cases hl with hold | ⟨-, hm⟩
      · exact Or.inl ⟨l, hold, hs⟩
      · rw [hm, hnew] at hs
        cases hs
    · rintro (⟨l, hl, hs⟩ | hnot)
      · exact ⟨l, lookup_append_old _ hl, hs⟩
      · exact absurd trivial hnot
  · subst hmv hd
    by_cases hji : j = i
    · subst hji
      have hown : l'.spoilt = true ↔ l.spoilt = true ∨ l.clean o = false := by
        have hok := h.2.call j l hl
        rcases ch3Step_cases hb with
          ⟨r, r', rfl, rfl, hread⟩ | ⟨w, w', rfl, rfl, hwrite⟩
        · exact hread.spoilt hok
        · exact hwrite.spoilt hok
      have hafter : Spoilt j ⟨g, c.calls.set j l'⟩ ↔ l'.spoilt = true := by
        simp [Spoilt, lookup_set_self hl]
      have hbefore : Spoilt j c ↔ l.spoilt = true := by
        simp [Spoilt, hl]
      rw [hafter, hown, hbefore]
      simp [Clean, hl]
    · have hsame : Spoilt i ⟨g, c.calls.set j l'⟩ ↔ Spoilt i c := by
        simp [Spoilt, List.getElem?_set_ne hji]
      rw [hsame]
      simp [Clean, hji]

/-! ## The result -/

/-- The whole effect of the ioctl: the caller's message was appended, or the
first message or the marker was copied out and no byte was left behind. -/
def FullEffect (g : Ch3) (i : Nat) : Call → Prop
  | .read r => r.ret = some 0 ∧
      (opsOf i g.history = [.dequeue i r.userBuf] ∨
        (opsOf i g.history = [.empty i] ∧ r.userBuf = emptyMsg))
  | .write w => opsOf i g.history = [.enqueue i w.userBuf]
  | .other => True

/-- The call returned 0 and had its whole effect, or it returned an error and
has neither appended nor removed anything. -/
def AllOrNothing (g : Ch3) (i : Nat) (l : Call) : Prop :=
  (l.result = some 0 ∧ FullEffect g i l) ∨
    ∃ code, l.result = some code ∧ code ≠ 0 ∧
      ∀ op ∈ opsOf i g.history, op = .empty i

/-- No call returns anything but 0. -/
theorem result_eq_zero {l : Call} {code : Int} (h : l.result = some code) :
    code = 0 := by
  cases l with
  | read r =>
      obtain ⟨userBuf, ret, pc⟩ := r
      cases pc with
      | returned => exact (Option.some.inj h).symm
      | _ => cases h
  | write w =>
      obtain ⟨userBuf, ret, pc⟩ := w
      cases pc with
      | returned => exact (Option.some.inj h).symm
      | _ => cases h
  | other => exact (Option.some.inj h).symm

/-- A call that has ended has returned with its whole effect unless it is
spoilt. -/
theorem fullEffect_iff {g : Ch3} {i : Nat} {l : Call} (hok : CallOk g i l)
    (hend : l.ended = true) :
    l.result = some 0 ∧ FullEffect g i l ↔ l.spoilt = false := by
  cases l with
  | other => exact iff_of_true ⟨rfl, trivial⟩ rfl
  | read r =>
      obtain ⟨userBuf, ret, pc⟩ := r
      cases pc with
      | returned =>
          obtain ⟨t, u, left, hops, hret, hbuf⟩ := hok
          have hret : ret = some left := hret
          have hbuf : userBuf = copyUser u t left := hbuf
          constructor
          · rintro ⟨-, hleft, -⟩
            have hleft : ret = some 0 := hleft
            simp [Call.spoilt, hleft]
          · intro hs
            have hleft : left = 0 := by simpa [Call.spoilt, hret] using hs
            rw [hleft, copyUser_zero] at hbuf
            refine ⟨rfl, ?_, ?_⟩
            · show ret = some 0
              rw [hret, hleft]
            · show opsOf i g.history = [.dequeue i userBuf] ∨
                (opsOf i g.history = [.empty i] ∧ userBuf = emptyMsg)
              rw [hbuf]
              exact hops
      | _ => cases hend
  | write w =>
      obtain ⟨userBuf, ret, pc⟩ := w
      cases pc with
      | returned =>
          obtain ⟨left, hret, hops⟩ := hok
          have hret : ret = some left := hret
          have hspoilt : (Call.write ⟨userBuf, ret, .returned⟩).spoilt =
              !zeroTail userBuf left := by
            rw [hret]
            rfl
          have heffect : FullEffect g i (.write ⟨userBuf, ret, .returned⟩) ↔
              copyFromUser userBuf left = userBuf := by
            rw [FullEffect, hops]
            simp
          rw [hspoilt, heffect, copyFromUser_eq_self_iff, Bool.not_eq_false']
          exact and_iff_right rfl
      | oops n =>
          refine iff_of_false (fun h => by cases h.1) fun h => ?_
          simp [Call.spoilt] at h
      | _ => cases hend

/-- So it is all-or-nothing unless it is spoilt. -/
theorem allOrNothing_iff_spoilt {g : Ch3} {i : Nat} {l : Call}
    (hok : CallOk g i l) (hend : l.ended = true) :
    AllOrNothing g i l ↔ l.spoilt = false := by
  rw [← fullEffect_iff hok hend]
  constructor
  · rintro (h | ⟨code, hcode, hne, -⟩)
    · exact h
    · exact absurd (result_eq_zero hcode) hne
  · exact Or.inl

/-- The step copies no message into the kernel, or all of it but zeros. -/
def Call.copiesWhole (o : Outcome) : Call → Bool
  | .write ⟨userBuf, _, .copy _⟩ => zeroTail userBuf o.left
  | _ => true

/-- No write leaves anything but zeros behind. -/
def WritesWhole (c : Conf) : Move → Prop
  | .issue _ => True
  | .advance i o => ∀ l ∈ c.calls[i]?, l.copiesWhole o = true

instance (c : Conf) : ∀ mv, Decidable (WritesWhole c mv)
  | .issue _ => inferInstanceAs (Decidable True)
  | .advance i o =>
      inferInstanceAs (Decidable (∀ l ∈ c.calls[i]?, l.copiesWhole o = true))

/-- No write so far has left anything but zeros behind. -/
def Whole (c : Conf) : Prop :=
  ∀ (i : Nat) (w : WriteCall), c.calls[i]? = some (.write w) →
    ∀ left ∈ w.ret, copyFromUser w.userBuf left = w.userBuf

theorem whole_step (c : Conf) (mv : Move) (d : Conf) (h : Whole c)
    (hC : WritesWhole c mv) (hst : step c mv = some d) : Whole d := by
  intro j m hm
  rcases step_cases hst with
    ⟨k, hmv, hd⟩ | ⟨i, o, l, g, l', hmv, hl, hb, hd⟩
  · subst hmv hd
    rcases lookup_append_cases hm with hold | ⟨-, hnew⟩
    · exact h j m hold
    · unfold ch3Ioctl at hnew
      split at hnew
      · cases hnew
      · split at hnew <;> cases hnew
        exact fun left hleft => by cases hleft
  · subst hmv hd
    rcases lookup_set_cases hl hm with ⟨-, hnew⟩ | ⟨-, hold⟩
    · rcases ch3Step_cases hb with
        ⟨r, r', hr, hr', hread⟩ | ⟨w, w', hw, hw', hwrite⟩
      · rw [hr'] at hnew
        cases hnew
      · rw [hw'] at hnew
        cases hnew
        have hbefore := h i w (hw ▸ hl)
        have hcopies := hC _ hl
        rw [hw] at hcopies
        obtain ⟨userBuf, ret, pc⟩ := w
        cases hwrite with
        | copy n b hpc hptr =>
            cases hpc
            intro left hleft
            cases hleft
            exact (copyFromUser_eq_self_iff userBuf o.left).mpr hcopies
        | _ => exact hbefore
    · exact h j m hold

/-- In every run: the locked sections work like a FIFO queue; a call that has
ended is all-or-nothing if and only if none of its allocations failed and its
copy left nothing behind, or, if it is a write, nothing but zeros; and if no
write has left anything but zeros behind, every message in the queue is one
that a writer passed. -/
theorem allOrNothing_iff {mvs : List Move} {c : Conf}
    (h : run step loaded mvs = some c) :
    Linear c.shared ∧
      (∀ (i : Nat) (l : Call), c.calls[i]? = some l → l.ended = true →
        (AllOrNothing c.shared i l ↔ Along step (Clean i) loaded mvs)) ∧
      (Along step WritesWhole loaded mvs → ∀ n ∈ c.shared.msgListHead,
        ∃ (i : Nat) (w : WriteCall), c.calls[i]? = some (.write w) ∧
          c.shared.contents n = some w.userBuf) := by
  have hinv : Invariant c := run_induct invariant_step invariant_loaded h
  refine ⟨hinv.2.shared.1, fun i l hl hend => ?_, fun hwhole n hn => ?_⟩
  · have hflag := flag_iff_not_along (F := Spoilt i) (C := Clean i)
      invariant_step spoilt_step invariant_loaded h
    have hnone : ¬ Spoilt i loaded := by
      rintro ⟨m, hm, -⟩
      simp [loaded, start] at hm
    have hspoilt : Spoilt i c ↔ l.spoilt = true := by
      simp [Spoilt, hl]
    rw [allOrNothing_iff_spoilt (hinv.2.call i l hl) hend]
    rw [hspoilt] at hflag
    constructor
    · intro hclean
      by_cases halong : Along step (Clean i) loaded mvs
      · exact halong
      · rw [hflag.mpr (Or.inr halong)] at hclean
        cases hclean
    · intro halong
      rw [← Bool.not_eq_true, hflag]
      rintro (hs | hnot)
      · exact hnone hs
      · exact hnot halong
  · obtain ⟨q, hlegal, hholds⟩ := hinv.2.shared.1
    have hmem : c.shared.contents n ∈ q.map some := by
      rw [← hholds]
      exact List.mem_map_of_mem hn
    obtain ⟨m, hm, hcont⟩ := List.mem_map.mp hmem
    obtain ⟨i, hin⟩ := mem_enqueued hlegal hm
    have hlt : i < c.calls.length := hinv.2.shared.2 _ hin
    have hops : .enqueue i m ∈ opsOf i c.shared.history := mem_opsOf hin
    have hW : Whole c := run_induct_along (P := Whole) whole_step
      (fun j w hw => by simp [loaded, start] at hw) hwhole h
    obtain ⟨l, hl⟩ : ∃ l, c.calls[i]? = some l :=
      ⟨_, List.getElem?_eq_getElem hlt⟩
    obtain ⟨w, left, hw, hret, hcopy⟩ := (hinv.2.call i l hl).enqueued hops
    rw [hw] at hl
    refine ⟨i, w, hl, ?_⟩
    rw [← hcont, hcopy, hW i w hl left hret]

/-- Every byte of the message is `'a'`. -/
def fullMsg : MsgSt := Vector.replicate 132 0x61

/-- Nothing fails. -/
def smooth : Outcome := ⟨0, false, emptyMsg⟩

/-- A message is written, then read twice. -/
def writeReadRun : List Move :=
  List.flatten
    [ [.issue ⟨ch3IoctlWrite, fullMsg⟩]
    , List.replicate 4 (.advance 0 smooth)
    , [.issue ⟨ch3IoctlRead, emptyMsg⟩]
    , List.replicate 4 (.advance 1 smooth)
    , [.issue ⟨ch3IoctlRead, fullMsg⟩]
    , List.replicate 2 (.advance 2 smooth) ]

theorem allOrNothing_iff_writeReadRun :
    ∃ c, run step loaded writeReadRun = some c ∧
      ∀ (i : Nat) (l : Call), c.calls[i]? = some l →
        AllOrNothing c.shared i l := by
  have hend : (run step loaded writeReadRun).map (fun c =>
      c.calls.map Call.ended) = some [true, true, true] := by
    decide +kernel
  obtain ⟨c, hrun, hcalls⟩ := Option.map_eq_some_iff.mp hend
  obtain ⟨-, hiff, -⟩ := allOrNothing_iff hrun
  refine ⟨c, hrun, fun i l hl => ?_⟩
  have hended : l.ended = true := by
    have hmem := List.mem_map_of_mem (f := Call.ended)
      (List.mem_of_getElem? hl)
    rw [hcalls] at hmem
    simpa using hmem
  exact (hiff i l hl hended).mpr
    (clean_of_smoothMoves (by decide +kernel) i loaded)

/-- The copy of a write stops one byte before the end. -/
def tornRun : List Move :=
  [ .issue ⟨ch3IoctlWrite, fullMsg⟩, .advance 0 smooth, .advance 0 smooth
  , .advance 0 ⟨1, false, emptyMsg⟩, .advance 0 smooth ]

/-- The write returns 0, and the queue holds a message that nobody passed. -/
theorem tornRun_pollutes :
    ∃ (c : Conf) (l : Call), run step loaded tornRun = some c ∧
      c.calls = [l] ∧ l.result = some 0 ∧ ¬ AllOrNothing c.shared 0 l ∧
      c.shared.msgListHead = [0] ∧
      c.shared.contents 0 = some (copyFromUser fullMsg 1) ∧
      copyFromUser fullMsg 1 ≠ fullMsg := by
  have hend : (run step loaded tornRun).map (fun c =>
      (c.calls, c.shared.msgListHead, c.shared.contents 0,
        c.shared.history)) =
        some ([.write ⟨fullMsg, some 1, .returned⟩], [0],
          some (copyFromUser fullMsg 1),
          [.enqueue 0 (copyFromUser fullMsg 1)]) := rfl
  obtain ⟨c, hrun, hc⟩ := Option.map_eq_some_iff.mp hend
  obtain ⟨hcalls, hc⟩ := Prod.mk.inj hc
  obtain ⟨hlist, hc⟩ := Prod.mk.inj hc
  obtain ⟨hcont, hhistory⟩ := Prod.mk.inj hc
  have htorn : copyFromUser fullMsg 1 ≠ fullMsg := by
    intro heq
    have hlast := congrArg (fun m : MsgSt => m[131]) heq
    simp [copyFromUser, fullMsg] at hlast
  refine ⟨c, _, hrun, hcalls, rfl, ?_, hlist, hcont, htorn⟩
  rintro (⟨-, heffect⟩ | ⟨code, hcode, hne, -⟩)
  · have heffect : opsOf 0 c.shared.history = [.enqueue 0 fullMsg] := heffect
    rw [hhistory] at heffect
    simp [opsOf, Op.who] at heffect
    exact htorn heffect
  · cases hcode
    exact hne rfl

end EmbeddedSystem.Labs.Ch3Queue
