import EmbeddedSystem.Labs.Ch4Delivery
import EmbeddedSystem.Verified.NodeHeap

/-!
# Who frees the nodes of the ch4 queue

A node leaves `ch4_mod_202111360.c` on one of five ways: after a failed
allocation or a failed copy in `ch4_write`, after a good or a failed copy in
`ch4_read`, or in the loop of `ch4_exit`.  Every step of a call is one of the
steps of a `NodeHeap`, so the ledger `NodeHeap.Owned` holds in every
reachable state: a live node is in the queue or in the hands of one call.

`list_add_tail` and `list_del` also write the links of the neighbours.  These
are queued nodes, and `SoleOwner.queued` says that queued nodes are live.
-/

set_option autoImplicit false

namespace EmbeddedSystem.Labs.Ch4Queue

open EmbeddedSystem.Verified
open EmbeddedSystem.Verified.WaitQueue
open EmbeddedSystem.Verified.Transition
open EmbeddedSystem.Verified.CallPool
open EmbeddedSystem.Verified.NodeHeap (Hold Owned)

/-! ## `ch4_exit` -/

/-- The loop of `ch4_exit` over the nodes that are left.  `kfree` of a null
pointer does nothing. -/
def ch4ExitLoop (g : Ch4) : List Nat → Ch4
  | [] => g
  | tmpNode :: q =>
      ch4ExitLoop
        { g with
          nodes := (g.nodes.touch tmpNode).kfree tmpNode
          msgs :=
            match g.msgPtr tmpNode with
            | none => g.msgs
            | some b => g.msgs.kfree b
          msgListHead := q } q

/-- `ch4_exit`, up to the removal of the device. -/
def ch4Exit (g : Ch4) : Ch4 :=
  ch4ExitLoop { g with myWq := wakeUpInterruptible g.myWq } g.msgListHead

/-! ## The steps of the module are steps of a `NodeHeap` -/

def Ch4.heap (g : Ch4) : NodeHeap MsgList MsgSt :=
  ⟨g.nodes, g.msgs, g.msgListHead⟩

/-- What a `ch4_read` has in its hands. -/
def ReadPc.hold : ReadPc → Hold
  | .wait _ => .nothing
  | .lock => .nothing
  | .copy n _ => .full n
  | .freeMsg n _ => .full n
  | .freeNode n _ => .spent n
  | .returned _ => .nothing

/-- What a `ch4_write` has in its hands. -/
def WritePc.hold : WritePc → Hold
  | .allocNode => .nothing
  | .allocMsg n => .bare n
  | .copy n => .full n
  | .freeMsg n _ => .full n
  | .freeNode n _ => .spent n
  | .lock n => .full n
  | .wake => .nothing
  | .returned _ => .nothing

def Call.hold : Call → Hold
  | .read r => r.pc.hold
  | .write w => w.pc.hold
  | .invalid _ => .nothing

theorem ReadStep.heapStep {g g' : Ch4} {i : Nat} {r r' : ReadCall}
    (h : ReadStep g i r g' r') :
    NodeHeap.Step MsgList.msg g.heap r.pc.hold g'.heap r'.pc.hold := by
  cases h with
  | waitAgain p p' q hpc => rw [hpc]; exact .idle _
  | interrupted p q ret hpc => rw [hpc]; exact .idle _
  | woken p q hpc => rw [hpc]; exact .idle _
  | recheckEmpty hpc => rw [hpc]; exact .idle _
  | take n b rest t hpc hlist hptr hget =>
      rw [hpc]
      exact .take n b rest hlist hptr
  | copied n t hpc => rw [hpc]; exact .idle _
  | faulted n t left hpc => rw [hpc]; exact .idle _
  | freeMsg n b code hpc hptr => rw [hpc]; exact .freeBuf n b hptr
  | freeNode n code hpc => rw [hpc]; exact .freeNode n

theorem WriteStep.heapStep {g g' : Ch4} {i : Nat} {w w' : WriteCall}
    (h : WriteStep g i w g' w') :
    NodeHeap.Step MsgList.msg g.heap w.pc.hold g'.heap w'.pc.hold := by
  cases h with
  | noNode hpc => rw [hpc]; exact .idle _
  | allocNode hpc => rw [hpc]; exact .allocNode _ rfl
  | noMsg n hpc => rw [hpc]; exact .noBuf n _ rfl
  | allocMsg n junk hpc => rw [hpc]; exact .allocBuf n _ junk rfl
  | copied n b hpc hptr => rw [hpc]; exact .store n b w.userBuf hptr
  | faulted n b m hpc hptr => rw [hpc]; exact .store n b m hptr
  | freeMsg n b code hpc hptr => rw [hpc]; exact .freeBuf n b hptr
  | freeNode n code hpc => rw [hpc]; exact .freeNode n
  | append n m hpc hm => rw [hpc]; exact .append n
  | wake hpc => rw [hpc]; exact .idle _

/-- The ledger of the module. -/
def Ledger (c : Conf) : Prop :=
  Owned MsgList.msg c.shared.heap (c.calls.map Call.hold)

theorem loaded_ledger : Ledger loaded :=
  NodeHeap.owned_empty fun w hw => by simp [loaded, start] at hw

theorem ledger_step (c : Conf) (mv : Move) (d : Conf) (h : Ledger c)
    (hst : step c mv = some d) : Ledger d := by
  rcases step_cases hst with
    ⟨k, hmv, hd⟩ | ⟨i, o, l, g, l', hmv, hl, hb, hd⟩
  · rw [hd, Ledger, List.map_append]
    have hnew : [ch4Ioctl k].map Call.hold = [.nothing] := by
      unfold ch4Ioctl
      split
      · rfl
      · split <;> rfl
    rw [hnew]
    exact h.issue
  · rw [hd, Ledger, List.map_set]
    apply h.step (lookup_map Call.hold hl)
    rcases ch4Step_cases hb with
      ⟨r, r', hr, hr', hread⟩ | ⟨w, w', hw, hw', hwrite⟩
    · rw [hr, hr']
      exact hread.heapStep
    · rw [hw, hw']
      exact hwrite.heapStep

/-! ## The loop of `ch4_exit` frees what is queued -/

theorem ch4ExitLoop_owned {hs : List Hold} {q : List Nat} {g : Ch4}
    (h : Owned MsgList.msg g.heap hs) (hq : g.msgListHead = q) :
    Owned MsgList.msg (ch4ExitLoop g q).heap hs ∧
      (ch4ExitLoop g q).msgListHead = [] := by
  induction q generalizing g with
  | nil => exact ⟨h, hq⟩
  | cons n rest ih =>
      obtain ⟨-, b, hb, -⟩ := h.queued (n := n)
        (by rw [Ch4.heap, hq]; exact List.mem_cons_self)
      have hptr : g.msgPtr n = some b := hb
      have hone := h.release hq hb
      unfold ch4ExitLoop
      rw [hptr]
      apply ih
      · exact hone
      · rfl

/-! ## The result -/

/-- The call has not returned yet. -/
def Call.inProgress : Call → Bool
  | .read ⟨_, _, _, .returned _⟩ => false
  | .read _ => true
  | .write ⟨_, .returned _⟩ => false
  | .write _ => true
  | .invalid _ => false

/-- Whoever has a node in its hands is in progress. -/
theorem Call.inProgress_of_hold {l : Call} {p : Nat}
    (h : l.hold.node = some p) : l.inProgress = true := by
  unfold inProgress
  split
  · cases h
  · rfl
  · cases h
  · rfl
  · cases h

/-- Node `p` is in the queue, once, and in nobody's hands. -/
def QueuedOnly (c : Conf) (p : Nat) : Prop :=
  c.shared.msgListHead.count p = 1 ∧
    ∀ (i : Nat) (l : Call), c.calls[i]? = some l → l.hold.node ≠ some p

/-- Node `p` is not in the queue and in the hands of exactly one call, which
is in progress. -/
def OwnedByOneCall (c : Conf) (p : Nat) : Prop :=
  p ∉ c.shared.msgListHead ∧
    ∃ (i : Nat) (l : Call), c.calls[i]? = some l ∧ l.inProgress = true ∧
      l.hold.node = some p ∧
      ∀ (j : Nat) (m : Call), c.calls[j]? = some m → m.hold.node = some p →
        j = i

/-- Every live node has one owner, the queue or a call, and the allocator is
respected. -/
structure SoleOwner (c : Conf) : Prop where
  owned : ∀ p, c.shared.nodes.live p = true →
    QueuedOnly c p ∨ OwnedByOneCall c p
  queued : ∀ p ∈ c.shared.msgListHead, c.shared.nodes.live p = true ∧
    ∃ b, c.shared.msgPtr p = some b ∧ c.shared.msgs.live b = true
  freedAtMostOnce : (∀ p, c.shared.nodes.freeCount p ≤ 1) ∧
    ∀ b, c.shared.msgs.freeCount b ≤ 1
  neverStale : c.shared.nodes.stale = 0 ∧ c.shared.msgs.stale = 0

/-- Every object was freed exactly once and none was accessed after that. -/
structure FreedOnce (g : Ch4) : Prop where
  nodes : ∀ p, p < g.nodes.fresh → g.nodes.freeCount p = 1
  msgs : ∀ b, b < g.msgs.fresh → g.msgs.freeCount b = 1
  neverStale : g.nodes.stale = 0 ∧ g.msgs.stale = 0

theorem Ledger.soleOwner {c : Conf} (h : Ledger c) : SoleOwner c := by
  refine
    { owned := fun p hp => ?_
      queued := fun p hp => h.queued hp
      freedAtMostOnce :=
        ⟨h.nodes.freeCount_le_one, h.bufs.freeCount_le_one⟩
      neverStale := ⟨h.nodes.stale, h.bufs.stale⟩ }
  rcases h.owner_cases hp with ⟨hcount, hnone⟩ | ⟨hnot, i, w, hi, hw, huniq⟩
  · exact Or.inl ⟨hcount, fun i l hl => hnone i _ (lookup_map Call.hold hl)⟩
  · rw [List.getElem?_map, Option.map_eq_some_iff] at hi
    obtain ⟨l, hl, rfl⟩ := hi
    exact Or.inr ⟨hnot, i, l, hl, Call.inProgress_of_hold hw, hw,
      fun j m hj hm => huniq j _ (lookup_map Call.hold hj) hm⟩

/-- With no call in progress, `ch4_exit` frees all that is left. -/
theorem Ledger.freedOnce {c : Conf} (h : Ledger c)
    (hidle : ∀ l ∈ c.calls, l.inProgress = false) :
    FreedOnce (ch4Exit c.shared) := by
  have hnone : ∀ w ∈ c.calls.map Call.hold, w = Hold.nothing := by
    intro w hw
    obtain ⟨l, hl, rfl⟩ := List.mem_map.mp hw
    cases hnode : l.hold with
    | nothing => rfl
    | _ =>
        have hbusy : l.inProgress = true :=
          Call.inProgress_of_hold (by rw [hnode]; rfl)
        rw [hidle l hl] at hbusy
        cases hbusy
  obtain ⟨howned, hempty⟩ := ch4ExitLoop_owned
    (g := { c.shared with myWq := wakeUpInterruptible c.shared.myWq }) h rfl
  obtain ⟨hnodes, hbufs⟩ := howned.allFreed hempty hnone
  exact ⟨hnodes, hbufs, howned.nodes.stale, howned.bufs.stale⟩

/-- In every reachable state every live node is queued or owned by exactly
one call in progress; and whenever no call is in progress, `ch4_exit` leaves
every node and every buffer freed exactly once, none of them accessed after
that. -/
theorem node_ownership {mvs : List Move} {c : Conf}
    (h : run step loaded mvs = some c) :
    SoleOwner c ∧
      ((∀ l ∈ c.calls, l.inProgress = false) → FreedOnce (ch4Exit c.shared)) := by
  have hledger : Ledger c := run_induct ledger_step loaded_ledger h
  exact ⟨hledger.soleOwner, hledger.freedOnce⟩

/-- After `exchangeRun` one more message is written, and left to
`ch4_exit`. -/
def leftoverRun : List Move :=
  List.flatten
    [ exchangeRun
    , [.issue ⟨ch4IoctlWrite, hello⟩]
    , List.replicate 5 (.advance 5 smooth) ]

theorem node_ownership_leftoverRun :
    ∃ c, run step loaded leftoverRun = some c ∧ SoleOwner c ∧
      FreedOnce (ch4Exit c.shared) := by
  have hend : (run step loaded leftoverRun).map (fun c =>
      c.calls.map Call.inProgress) = some (List.replicate 6 false) := by
    decide +kernel
  obtain ⟨c, hrun, hcalls⟩ := Option.map_eq_some_iff.mp hend
  obtain ⟨howner, hexit⟩ := node_ownership hrun
  refine ⟨c, hrun, howner, hexit fun l hl => ?_⟩
  have hmem := List.mem_map_of_mem (f := Call.inProgress) hl
  rw [hcalls] at hmem
  simpa using hmem

end EmbeddedSystem.Labs.Ch4Queue
