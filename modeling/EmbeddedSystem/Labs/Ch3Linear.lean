import EmbeddedSystem.Labs.Ch3Answers

/-!
# The ch3 queue as a linearizable object, and who frees its nodes

Where no allocation fails and no user copy leaves anything behind, the calls
of `ch3_mod_202111360.c` are linearizable: `history` lists the locked sections
in the order in which they ran, that order is a legal history of a FIFO queue,
every call that has ended is in it once and was answered by it, and whatever
is added to it later belongs to calls that had not ended yet.

The node that a read has taken off the list is freed after the lock was given
up, and `ch3_exit` frees what is still listed.  The ledger of `NodeHeap` says
that the two never meet.  `list_add_tail` and `list_del` also write the links
of the neighbours; these are listed nodes, and listed nodes are live.
-/

set_option autoImplicit false

namespace EmbeddedSystem.Labs.Ch3Queue

open EmbeddedSystem.Verified
open EmbeddedSystem.Verified.Transition
open EmbeddedSystem.Verified.CallPool
open EmbeddedSystem.Verified.NodeHeap (Hold Owned)
open EmbeddedSystem.Verified.FifoHistory

/-! ## `ch3_exit` -/

/-- The loop of `ch3_exit` over the nodes that are left.  `kfree` of a null
pointer does nothing. -/
def ch3ExitLoop (g : Ch3) : List Nat → Ch3
  | [] => g
  | tmpNode :: q =>
      ch3ExitLoop
        { g with
          nodes := (g.nodes.touch tmpNode).kfree tmpNode
          msgs :=
            match g.msgPtr tmpNode with
            | none => g.msgs
            | some b => g.msgs.kfree b
          msgListHead := q } q

/-- `ch3_exit`, up to the removal of the device. -/
def ch3Exit (g : Ch3) : Ch3 := ch3ExitLoop g g.msgListHead

theorem ch3ExitLoop_owned {hs : List Hold} {q : List Nat} {g : Ch3}
    (h : Owned MsgList.msg g.heap hs) (hq : g.msgListHead = q) :
    Owned MsgList.msg (ch3ExitLoop g q).heap hs ∧
      (ch3ExitLoop g q).msgListHead = [] := by
  induction q generalizing g with
  | nil => exact ⟨h, hq⟩
  | cons n rest ih =>
      obtain ⟨-, b, hb, -⟩ := h.queued (n := n)
        (by rw [Ch3.heap, hq]; exact List.mem_cons_self)
      have hptr : g.msgPtr n = some b := hb
      have hone := h.release hq hb
      unfold ch3ExitLoop
      rw [hptr]
      apply ih
      · exact hone
      · rfl

/-! ## Calls that have ended -/

/-- The calls that have ended. -/
theorem Call.ended_cases {l : Call} (h : l.ended = true) :
    (∃ userBuf ret, l = .read ⟨userBuf, ret, .returned⟩) ∨
    (∃ userBuf ret, l = .write ⟨userBuf, ret, .returned⟩) ∨
    (∃ userBuf ret n, l = .write ⟨userBuf, ret, .oops n⟩) ∨ l = .other := by
  cases l with
  | read r =>
      obtain ⟨userBuf, ret, pc⟩ := r
      cases pc with
      | returned => exact Or.inl ⟨userBuf, ret, rfl⟩
      | _ => cases h
  | write w =>
      obtain ⟨userBuf, ret, pc⟩ := w
      cases pc with
      | returned => exact Or.inr (Or.inl ⟨userBuf, ret, rfl⟩)
      | oops n => exact Or.inr (Or.inr (Or.inl ⟨userBuf, ret, n, rfl⟩))
      | _ => cases h
  | other => exact Or.inr (Or.inr (Or.inr rfl))

/-- A call that has ended takes no step. -/
theorem ch3Step_ended {g : Ch3} {i : Nat} {l : Call} {o : Outcome}
    (h : l.ended = true) : ch3Step g i l o = none := by
  rcases Call.ended_cases h with
    ⟨u, ret, rfl⟩ | ⟨u, ret, rfl⟩ | ⟨u, ret, n, rfl⟩ | rfl <;> rfl

/-- A call whose environment let it do everything has nothing left in its
hands when it has ended. -/
theorem Call.hold_of_ended {l : Call} (h : l.ended = true)
    (hs : l.spoilt = false) : l.hold = .nothing := by
  rcases Call.ended_cases h with
    ⟨u, ret, rfl⟩ | ⟨u, ret, rfl⟩ | ⟨u, ret, n, rfl⟩ | rfl
  · rfl
  · rfl
  · cases hs
  · rfl

/-- Nobody has more than one operation in the history. -/
theorem CallOk.atMostOnce {g : Ch3} {i : Nat} {l : Call}
    (h : CallOk g i l) : (opsOf i g.history).length ≤ 1 := by
  have hnone : opsOf i g.history = [] → (opsOf i g.history).length ≤ 1 := by
    intro hops
    rw [hops]
    exact Nat.zero_le 1
  have hone : ∀ op, opsOf i g.history = [op] →
      (opsOf i g.history).length ≤ 1 := by
    intro op hops
    rw [hops]
    exact Nat.le_refl 1
  cases l with
  | other => exact hnone h
  | read r =>
      have h : ReadOk g i r := h
      have hanswered : Answered g i r →
          (opsOf i g.history).length ≤ 1 := by
        rintro ⟨t, u, left, hans | ⟨hans, -⟩, -⟩
        · exact hone _ hans
        · exact hone _ hans
      unfold ReadOk at h
      split at h
      · exact hnone h.1
      · exact hone _ h.1
      · exact hone _ h.1
      · exact hanswered h
      · exact hanswered h
      · exact hanswered h
  | write w =>
      have h : WriteOk g i w := h
      unfold WriteOk at h
      split at h
      · exact hnone h.1
      · exact hnone h.1
      · exact hnone h.1
      · exact hnone h.1
      · exact hnone h.1
      · obtain ⟨left, -, hops⟩ := h
        exact hone _ hops

/-! ## Real time -/

/-- What has happened since `c`: the calls that had ended are as they were,
and all that was added to the history belongs to others. -/
def Later (c d : Conf) : Prop :=
  (∀ (i : Nat) (l : Call), c.calls[i]? = some l → l.ended = true →
    d.calls[i]? = some l) ∧
  ∃ ops, d.shared.history = c.shared.history ++ ops ∧
    ∀ op ∈ ops, ∀ l ∈ c.calls[op.who]?, l.ended = false

theorem Later.refl (c : Conf) : Later c c :=
  ⟨fun _ _ hl _ => hl, [], (List.append_nil _).symm,
    fun op hop => by cases hop⟩

theorem Later.step {c d e : Conf} {mv : Move} (h : Later c d)
    (hst : step d mv = some e) : Later c e := by
  obtain ⟨hended, ops, hops, hwho⟩ := h
  have hstay : ∀ (j : Nat) (m : Call), c.calls[j]? = some m →
      m.ended = true → e.calls[j]? = some m := fun j m hm hend =>
    lookup_ended (hended j m hm hend) (fun _ _ => ch3Step_ended hend) hst
  refine ⟨hstay, ?_⟩
  rcases step_cases hst with
    ⟨k, hmv, he⟩ | ⟨i, o, l, g, l', hmv, hl, hb, he⟩
  · subst he
    exact ⟨ops, hops, hwho⟩
  · subst he
    rcases ch3Step_history hb with hsame | ⟨op, hop, happ⟩
    · exact ⟨ops, hsame.trans hops, hwho⟩
    · -- the call that moves had not ended
      have hmoves : ∀ m, c.calls[i]? = some m → m.ended = false := by
        intro m hm
        cases hend : m.ended with
        | false => rfl
        | true =>
            have hsame := hended i m hm hend
            rw [hl, Option.some.injEq] at hsame
            rw [hsame, ch3Step_ended hend] at hb
            cases hb
      refine ⟨ops ++ [op], ?_, fun op' hop' => ?_⟩
      · show g.history = _
        rw [happ, hops, List.append_assoc]
      · rcases List.mem_append.mp hop' with hold | hnew
        · exact hwho op' hold
        · rw [List.mem_singleton.mp hnew, hop]
          exact hmoves

theorem later_of_run {c d : Conf} {mvs : List Move}
    (h : run step c mvs = some d) : Later c d :=
  run_induct (P := Later c) (fun _ _ _ hc hst => hc.step hst) (.refl c) h

/-! ## The result -/

/-- The calls are linearizable by their locked sections. -/
structure Linearizable (mvs : List Move) (c : Conf) : Prop where
  /-- a FIFO queue could have worked like this, and holds what is listed -/
  legal : Linear c.shared
  issued : ∀ op ∈ c.shared.history, op.who < c.calls.length
  atMostOnce : ∀ (i : Nat) (l : Call), c.calls[i]? = some l →
    (opsOf i c.shared.history).length ≤ 1
  /-- who has ended is in the history, and was answered by it -/
  answered : ∀ (i : Nat) (l : Call), c.calls[i]? = some l →
    l.ended = true → l.result = some 0 ∧ FullEffect c.shared i l
  /-- the history is in the order of real time -/
  realTime : ∀ (mvs₁ mvs₂ : List Move) (c₁ : Conf), mvs = mvs₁ ++ mvs₂ →
    run step loaded mvs₁ = some c₁ → Later c₁ c

/-- What is listed is there, and nothing is freed twice or used after it was
freed. -/
structure Reclaimed (g : Ch3) : Prop where
  queued : ∀ n ∈ g.msgListHead, g.nodes.live n = true ∧
    ∃ b, g.msgPtr n = some b ∧ g.msgs.live b = true
  freedAtMostOnce : (∀ n, g.nodes.freeCount n ≤ 1) ∧
    ∀ b, g.msgs.freeCount b ≤ 1
  neverStale : g.nodes.stale = 0 ∧ g.msgs.stale = 0

/-- Every object was freed exactly once, and none was accessed after that. -/
structure FreedOnce (g : Ch3) : Prop where
  nodes : ∀ n, n < g.nodes.fresh → g.nodes.freeCount n = 1
  msgs : ∀ b, b < g.msgs.fresh → g.msgs.freeCount b = 1
  neverStale : g.nodes.stale = 0 ∧ g.msgs.stale = 0

theorem Ledger.reclaimed {c : Conf} (h : Ledger c) : Reclaimed c.shared :=
  { queued := fun _ hn => h.queued hn
    freedAtMostOnce :=
      ⟨h.nodes.freeCount_le_one, h.bufs.freeCount_le_one⟩
    neverStale := ⟨h.nodes.stale, h.bufs.stale⟩ }

/-- If nobody has anything in its hands, `ch3_exit` frees all that is left. -/
theorem Ledger.freedOnce {c : Conf} (h : Ledger c)
    (hnone : ∀ l ∈ c.calls, l.hold = .nothing) :
    FreedOnce (ch3Exit c.shared) := by
  have hholds : ∀ w ∈ c.calls.map Call.hold, w = Hold.nothing := by
    intro w hw
    obtain ⟨l, hl, rfl⟩ := List.mem_map.mp hw
    exact hnone l hl
  obtain ⟨howned, hempty⟩ := ch3ExitLoop_owned (g := c.shared) h rfl
  obtain ⟨hnodes, hbufs⟩ := howned.allFreed hempty hholds
  exact ⟨hnodes, hbufs, howned.nodes.stale, howned.bufs.stale⟩

/-- Nothing has gone wrong for any call. -/
theorem not_spoilt_of_clean {mvs : List Move} {c : Conf}
    (hclean : ∀ i, Along step (Clean i) loaded mvs)
    (h : run step loaded mvs = some c) {i : Nat} {l : Call}
    (hl : c.calls[i]? = some l) : l.spoilt = false := by
  have hflag := flag_iff_not_along (F := Spoilt i) (C := Clean i)
    invariant_step spoilt_step invariant_loaded h
  cases hs : l.spoilt with
  | false => rfl
  | true =>
      rcases hflag.mp ⟨l, hl, hs⟩ with ⟨m, hm, -⟩ | hnot
      · simp [loaded, start] at hm
      · exact absurd (hclean i) hnot

/-- In every run in which no allocation fails and no user copy leaves anything
behind, the calls are linearizable by their locked sections; nothing is freed
twice or used after it was freed; and once all calls have ended, `ch3_exit`
leaves every node and every buffer freed exactly once. -/
theorem ch3_linearizable {mvs : List Move} {c : Conf}
    (hclean : ∀ i, Along step (Clean i) loaded mvs)
    (h : run step loaded mvs = some c) :
    Linearizable mvs c ∧ Reclaimed c.shared ∧
      ((∀ l ∈ c.calls, l.ended = true) → FreedOnce (ch3Exit c.shared)) := by
  have hinv : Invariant c := run_induct invariant_step invariant_loaded h
  refine ⟨?_, hinv.1.reclaimed, fun hend => hinv.1.freedOnce fun l hl => ?_⟩
  · exact
      { legal := hinv.2.shared.1
        issued := hinv.2.shared.2
        atMostOnce := fun i l hl => (hinv.2.call i l hl).atMostOnce
        answered := fun i l hl hend =>
          (fullEffect_iff (hinv.2.call i l hl) hend).mpr
            (not_spoilt_of_clean hclean h hl)
        realTime := fun mvs₁ mvs₂ c₁ hmvs hrun => by
          rw [hmvs, run_append, hrun] at h
          exact later_of_run h }
  · obtain ⟨i, hi⟩ := List.mem_iff_getElem?.mp hl
    exact Call.hold_of_ended (hend l hl) (not_spoilt_of_clean hclean h hi)

/-- Two messages are written and two reads take them, the second one before
the first one has freed its node; a third message is left to `ch3_exit`. -/
def overlapRun : List Move :=
  List.flatten
    [ [.issue ⟨ch3IoctlWrite, fullMsg⟩, .issue ⟨ch3IoctlWrite, emptyMsg⟩]
    , List.replicate 4 (.advance 0 smooth)
    , List.replicate 4 (.advance 1 smooth)
    , [.issue ⟨ch3IoctlRead, emptyMsg⟩, .issue ⟨ch3IoctlRead, emptyMsg⟩]
    , [.advance 2 smooth, .advance 3 smooth]
    , List.replicate 3 (.advance 3 smooth)
    , List.replicate 3 (.advance 2 smooth)
    , [.issue ⟨ch3IoctlWrite, fullMsg⟩]
    , List.replicate 4 (.advance 4 smooth) ]

theorem ch3_linearizable_overlapRun :
    ∃ c, run step loaded overlapRun = some c ∧
      Linearizable overlapRun c ∧ Reclaimed c.shared ∧
      FreedOnce (ch3Exit c.shared) := by
  have hend : (run step loaded overlapRun).map (fun c =>
      c.calls.map Call.ended) = some [true, true, true, true, true] := by
    decide +kernel
  obtain ⟨c, hrun, hcalls⟩ := Option.map_eq_some_iff.mp hend
  obtain ⟨hlin, hrec, hexit⟩ := ch3_linearizable
    (fun i => clean_of_smoothMoves (by decide +kernel) i loaded) hrun
  refine ⟨c, hrun, hlin, hrec, hexit fun l hl => ?_⟩
  have hmem := List.mem_map_of_mem (f := Call.ended) hl
  rw [hcalls] at hmem
  simpa using hmem

end EmbeddedSystem.Labs.Ch3Queue
