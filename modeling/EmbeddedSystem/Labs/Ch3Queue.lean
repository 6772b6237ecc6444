import EmbeddedSystem.Verified.FifoHistory
import EmbeddedSystem.Verified.NodeHeap
import EmbeddedSystem.Verified.Uaccess

/-!
# The message queue of `ch3_mod_202111360.c`

`ch3_write` allocates a node and a message buffer, copies the caller's message
into the buffer and appends the node under `my_lock`; `ch3_read` takes the
first node off under `my_lock`, copies its message out and frees it, and
copies out a marker if there is none.  Both are modelled statement by
statement as calls of a `CallPool`; every `spin_lock` section is one atomic
step, as are allocations, user copies and `kfree`.

Neither function looks at what `kmalloc` returns, and `ch3_ioctl` drops what
they return and reports success.  A store through a null pointer is an oops:
the call never returns.

The steps are steps of a `NodeHeap`, so its ledger holds in every reachable
state.  With it, what the locked sections did is a legal history of a FIFO
queue that holds what the list holds now (`Linear`), and `CallOk` says how far
each call has got in it.
-/

set_option autoImplicit false

namespace EmbeddedSystem.Labs.Ch3Queue

open EmbeddedSystem.Verified
open EmbeddedSystem.Verified.Uaccess
open EmbeddedSystem.Verified.Transition
open EmbeddedSystem.Verified.CallPool
open EmbeddedSystem.Verified.NodeHeap (Hold Owned)
open EmbeddedSystem.Verified.FifoHistory

/-! ## `ch3.h` -/

def ioctlStartNum : Nat := 0x80
def ioctlNum1 : Nat := ioctlStartNum + 1
def ioctlNum2 : Nat := ioctlStartNum + 2

/-- `'z'` -/
def simpleIoctlNum : Nat := 0x7a

/-- `_IOWR(SIMPLE_IOCTL_NUM, IOCTL_NUM1, unsigned long *)` -/
def ch3IoctlRead : Nat := iowr simpleIoctlNum ioctlNum1 8

/-- `_IOWR(SIMPLE_IOCTL_NUM, IOCTL_NUM2, unsigned long *)` -/
def ch3IoctlWrite : Nat := iowr simpleIoctlNum ioctlNum2 8

/-- `struct msg_st` byte for byte: `int len` and `char str[128]`. -/
abbrev MsgSt := Vector UInt8 132

/-! ## Shared state -/

/-- `struct msg_list`; `none` is a null pointer. -/
structure MsgList where
  msg : Option Nat
deriving DecidableEq, Repr

/-- The module's memory and globals.  `history` records what the locked
sections did; no code reads it. -/
structure Ch3 where
  nodes : Slab MsgList
  msgs : Slab MsgSt
  msgListHead : List Nat
  history : List (Op MsgSt)
deriving DecidableEq, Repr

/-- After a successful `ch3_init`. -/
def ch3Init : Ch3 := ⟨Slab.empty, Slab.empty, [], []⟩

def Ch3.heap (g : Ch3) : NodeHeap MsgList MsgSt :=
  ⟨g.nodes, g.msgs, g.msgListHead⟩

/-- `node->msg` -/
def Ch3.msgPtr (g : Ch3) (n : Nat) : Option Nat := g.heap.buf MsgList.msg n

/-- `*node->msg` -/
def Ch3.contents (g : Ch3) (n : Nat) : Option MsgSt :=
  g.heap.contents MsgList.msg n

/-- What the environment decides in a step: how many bytes a user copy leaves
behind, whether an allocation fails, and what freshly allocated memory
contains. -/
structure Outcome where
  left : Nat
  nomem : Bool
  junk : MsgSt
deriving DecidableEq, Repr

/-! ## `ch3_read` -/

/-- The message that stands for an empty queue: all zero but
`str[0] = '0'`. -/
def emptyMsg : MsgSt := ((Vector.replicate 132 0).set 4 0x30).set 5 0

/-- The next statement of a `ch3_read`. -/
inductive ReadPc where
  | lock
  | copyEmpty
  | copy (firstNode : Nat) (tempMsg : MsgSt)
  | freeMsg (firstNode : Nat)
  | freeNode (firstNode : Nat)
  | returned
deriving DecidableEq, Repr

/-- A `ch3_read` in flight: the caller's buffer, the variable `ret` once it is
set, and the next statement. -/
structure ReadCall where
  userBuf : MsgSt
  ret : Option Nat
  pc : ReadPc
deriving DecidableEq, Repr

/-- One step of `ch3_read` by call `i`. -/
def ch3Read (g : Ch3) (i : Nat) (r : ReadCall) (o : Outcome) :
    Option (Ch3 × ReadCall) :=
  match r.pc with
  | .lock =>
      match g.msgListHead with
      | [] =>
          some ({ g with history := g.history ++ [.empty i] },
            { r with pc := .copyEmpty })
      | n :: rest =>
          match g.msgPtr n with
          | none => none
          | some b =>
              match g.msgs.get b with
              | none => none
              | some t =>
                  some ({ g with
                      nodes := g.nodes.touch n
                      msgs := g.msgs.touch b
                      msgListHead := rest
                      history := g.history ++ [.dequeue i t] },
                    { r with pc := .copy n t })
  | .copyEmpty =>
      some (g, { r with
        userBuf := copyUser r.userBuf emptyMsg o.left
        ret := some o.left
        pc := .returned })
  | .copy n t =>
      some (g, { r with
        userBuf := copyUser r.userBuf t o.left
        ret := some o.left
        pc := .freeMsg n })
  | .freeMsg n =>
      match g.msgPtr n with
      | none => none
      | some b =>
          some ({ g with nodes := g.nodes.touch n, msgs := g.msgs.kfree b },
            { r with pc := .freeNode n })
  | .freeNode n =>
      some ({ g with nodes := g.nodes.kfree n }, { r with pc := .returned })
  | .returned => none

/-! ## `ch3_write` -/

/-- The next statement of a `ch3_write`.  `newNode` is the node that the call
has got so far, if there was memory for one. -/
inductive WritePc where
  | allocNode
  | allocMsg (newNode : Nat)
  | copy (newNode : Nat)
  | lock (newNode : Nat)
  | returned
  | oops (newNode : Option Nat)
deriving DecidableEq, Repr

/-- A `ch3_write` in flight. -/
structure WriteCall where
  userBuf : MsgSt
  ret : Option Nat
  pc : WritePc
deriving DecidableEq, Repr

/-- One step of `ch3_write` by call `i`. -/
def ch3Write (g : Ch3) (i : Nat) (w : WriteCall) (o : Outcome) :
    Option (Ch3 × WriteCall) :=
  match w.pc with
  | .allocNode =>
      -- `new_node->msg` is stored through the null pointer
      if o.nomem then some (g, { w with pc := .oops none })
      else
        some ({ g with nodes := g.nodes.kmalloc ⟨none⟩ },
          { w with pc := .allocMsg g.nodes.fresh })
  | .allocMsg n =>
      -- `copy_from_user` writes to the null pointer
      if o.nomem then
        some ({ g with nodes := (g.nodes.touch n).put n ⟨none⟩ },
          { w with pc := .oops (some n) })
      else
        some ({ g with
            nodes := (g.nodes.touch n).put n ⟨some g.msgs.fresh⟩
            msgs := g.msgs.kmalloc o.junk },
          { w with pc := .copy n })
  | .copy n =>
      match g.msgPtr n with
      | none => none
      | some b =>
          some ({ g with
              nodes := g.nodes.touch n
              msgs := (g.msgs.touch b).put b (copyFromUser w.userBuf o.left) },
            { w with ret := some o.left, pc := .lock n })
  | .lock n =>
      match g.contents n with
      | none => none
      | some m =>
          some ({ g with
              nodes := g.nodes.touch n
              msgListHead := g.msgListHead ++ [n]
              history := g.history ++ [.enqueue i m] },
            { w with pc := .returned })
  | .returned => none
  | .oops _ => none

/-! ## `ch3_ioctl` -/

/-- The arguments of an `ioctl` on the device; `arg` points to `userBuf`. -/
structure Ioctl where
  cmd : Nat
  userBuf : MsgSt
deriving DecidableEq, Repr

/-- A call of `ch3_ioctl`. -/
inductive Call where
  | read (r : ReadCall)
  | write (w : WriteCall)
  | other
deriving DecidableEq, Repr

/-- The dispatch in `ch3_ioctl`; there is no `default` case. -/
def ch3Ioctl (k : Ioctl) : Call :=
  if k.cmd = ch3IoctlRead then .read ⟨k.userBuf, none, .lock⟩
  else if k.cmd = ch3IoctlWrite then .write ⟨k.userBuf, none, .allocNode⟩
  else .other

/-- What `ch3_ioctl` has returned: always 0, whatever `ret` is. -/
def Call.result : Call → Option Int
  | .read ⟨_, _, .returned⟩ => some 0
  | .write ⟨_, _, .returned⟩ => some 0
  | .other => some 0
  | _ => none

/-- The call has returned, or it will never go on. -/
def Call.ended : Call → Bool
  | .read ⟨_, _, .returned⟩ => true
  | .write ⟨_, _, .returned⟩ => true
  | .write ⟨_, _, .oops _⟩ => true
  | .other => true
  | _ => false

/-- One step of a call. -/
def ch3Step (g : Ch3) (i : Nat) (l : Call) (o : Outcome) :
    Option (Ch3 × Call) :=
  match l with
  | .read r => (ch3Read g i r o).map fun x => (x.1, .read x.2)
  | .write w => (ch3Write g i w o).map fun x => (x.1, .write x.2)
  | .other => none

/-- The module with the calls in flight. -/
abbrev Conf := CallPool.Conf Ch3 Call

abbrev Move := CallPool.Move Ioctl Outcome

/-- One step of the whole module. -/
def step : Conf → Move → Option Conf := CallPool.step ch3Ioctl ch3Step

/-- The module right after it was loaded. -/
def loaded : Conf := CallPool.start ch3Init

/-! ## What the steps can do -/

/-- The steps of `ch3Read`, one constructor for each statement. -/
inductive ReadStep (g : Ch3) (i : Nat) (r : ReadCall) (o : Outcome) :
    Ch3 → ReadCall → Prop where
  | foundEmpty (hpc : r.pc = .lock) (hempty : g.msgListHead = []) :
      ReadStep g i r o { g with history := g.history ++ [.empty i] }
        { r with pc := .copyEmpty }
  | take (n b : Nat) (rest : List Nat) (t : MsgSt) (hpc : r.pc = .lock)
      (hlist : g.msgListHead = n :: rest) (hptr : g.msgPtr n = some b)
      (hget : g.msgs.get b = some t) :
      ReadStep g i r o
        { g with
          nodes := g.nodes.touch n
          msgs := g.msgs.touch b
          msgListHead := rest
          history := g.history ++ [.dequeue i t] }
        { r with pc := .copy n t }
  | copyEmpty (hpc : r.pc = .copyEmpty) :
      ReadStep g i r o g
        { userBuf := copyUser r.userBuf emptyMsg o.left
          ret := some o.left
          pc := .returned }
  | copy (n : Nat) (t : MsgSt) (hpc : r.pc = .copy n t) :
      ReadStep g i r o g
        { userBuf := copyUser r.userBuf t o.left
          ret := some o.left
          pc := .freeMsg n }
  | freeMsg (n b : Nat) (hpc : r.pc = .freeMsg n)
      (hptr : g.msgPtr n = some b) :
      ReadStep g i r o
        { g with nodes := g.nodes.touch n, msgs := g.msgs.kfree b }
        { r with pc := .freeNode n }
  | freeNode (n : Nat) (hpc : r.pc = .freeNode n) :
      ReadStep g i r o { g with nodes := g.nodes.kfree n }
        { r with pc := .returned }

theorem ch3Read_step {g g' : Ch3} {i : Nat} {r r' : ReadCall} {o : Outcome}
    (h : ch3Read g i r o = some (g', r')) : ReadStep g i r o g' r' := by
  unfold ch3Read at h
  split at h
  case h_1 hpc =>
    split at h
    case h_1 hempty =>
      cases h
      exact .foundEmpty hpc hempty
    case h_2 n rest hlist =>
      split at h
      case h_1 => cases h
      case h_2 b hptr =>
        split at h
        case h_1 => cases h
        case h_2 t hget =>
          cases h
          exact .take n b rest t hpc hlist hptr hget
  case h_2 hpc =>
    cases h
    exact .copyEmpty hpc
  case h_3 n t hpc =>
    cases h
    exact .copy n t hpc
  case h_4 n hpc =>
    split at h
    case h_1 => cases h
    case h_2 b hptr =>
      cases h
      exact .freeMsg n b hpc hptr
  case h_5 n hpc =>
    cases h
    exact .freeNode n hpc
  case h_6 => cases h

/-- The steps of `ch3Write`, one constructor for each way through it. -/
inductive WriteStep (g : Ch3) (i : Nat) (w : WriteCall) (o : Outcome) :
    Ch3 → WriteCall → Prop where
  | noNode (hpc : w.pc = .allocNode) (hmem : o.nomem = true) :
      WriteStep g i w o g { w with pc := .oops none }
  | allocNode (hpc : w.pc = .allocNode) (hmem : o.nomem = false) :
      WriteStep g i w o { g with nodes := g.nodes.kmalloc ⟨none⟩ }
        { w with pc := .allocMsg g.nodes.fresh }
  | noMsg (n : Nat) (hpc : w.pc = .allocMsg n) (hmem : o.nomem = true) :
      WriteStep g i w o { g with nodes := (g.nodes.touch n).put n ⟨none⟩ }
        { w with pc := .oops (some n) }
  | allocMsg (n : Nat) (hpc : w.pc = .allocMsg n) (hmem : o.nomem = false) :
      WriteStep g i w o
        { g with
          nodes := (g.nodes.touch n).put n ⟨some g.msgs.fresh⟩
          msgs := g.msgs.kmalloc o.junk }
        { w with pc := .copy n }
  | copy (n b : Nat) (hpc : w.pc = .copy n) (hptr : g.msgPtr n = some b) :
      WriteStep g i w o
        { g with
          nodes := g.nodes.touch n
          msgs := (g.msgs.touch b).put b (copyFromUser w.userBuf o.left) }
        { w with ret := some o.left, pc := .lock n }
  | append (n : Nat) (m : MsgSt) (hpc : w.pc = .lock n)
      (hcont : g.contents n = some m) :
      WriteStep g i w o
        { g with
          nodes := g.nodes.touch n
          msgListHead := g.msgListHead ++ [n]
          history := g.history ++ [.enqueue i m] }
        { w with pc := .returned }

theorem ch3Write_step {g g' : Ch3} {i : Nat} {w w' : WriteCall} {o : Outcome}
    (h : ch3Write g i w o = some (g', w')) : WriteStep g i w o g' w' := by
  unfold ch3Write at h
  split at h
  case h_1 hpc =>
    split at h
    case isTrue hmem =>
      cases h
      exact .noNode hpc hmem
    case isFalse hmem =>
      cases h
      exact .allocNode hpc (Bool.eq_false_iff.mpr hmem)
  case h_2 n hpc =>
    split at h
    case isTrue hmem =>
      cases h
      exact .noMsg n hpc hmem
    case isFalse hmem =>
      cases h
      exact .allocMsg n hpc (Bool.eq_false_iff.mpr hmem)
  case h_3 n hpc =>
    split at h
    case h_1 => cases h
    case h_2 b hptr =>
      cases h
      exact .copy n b hpc hptr
  case h_4 n hpc =>
    split at h
    case h_1 => cases h
    case h_2 m hcont =>
      cases h
      exact .append n m hpc hcont
  case h_5 => cases h
  case h_6 => cases h

/-- A step of a call is a step of its `ch3_read` or of its `ch3_write`. -/
theorem ch3Step_cases {g g' : Ch3} {i : Nat} {l l' : Call} {o : Outcome}
    (h : ch3Step g i l o = some (g', l')) :
    (∃ r r', l = .read r ∧ l' = .read r' ∧ ReadStep g i r o g' r') ∨
      ∃ w w', l = .write w ∧ l' = .write w' ∧ WriteStep g i w o g' w' := by
  cases l with
  | read r =>
      simp only [ch3Step, Option.map_eq_some_iff, Prod.mk.injEq] at h
      obtain ⟨⟨_, r'⟩, hr, rfl, rfl⟩ := h
      exact Or.inl ⟨r, r', rfl, rfl, ch3Read_step hr⟩
  | write w =>
      simp only [ch3Step, Option.map_eq_some_iff, Prod.mk.injEq] at h
      obtain ⟨⟨_, w'⟩, hw, rfl, rfl⟩ := h
      exact Or.inr ⟨w, w', rfl, rfl, ch3Write_step hw⟩
  | other => simp [ch3Step] at h

/-! ## The steps of the module are steps of a `NodeHeap` -/

/-- What a `ch3_read` has in its hands. -/
def ReadPc.hold : ReadPc → Hold
  | .lock => .nothing
  | .copyEmpty => .nothing
  | .copy n _ => .full n
  | .freeMsg n => .full n
  | .freeNode n => .spent n
  | .returned => .nothing

/-- What a `ch3_write` has in its hands.  A node that an oops leaves behind is
never freed. -/
def WritePc.hold : WritePc → Hold
  | .allocNode => .nothing
  | .allocMsg n => .bare n
  | .copy n => .full n
  | .lock n => .full n
  | .returned => .nothing
  | .oops none => .nothing
  | .oops (some n) => .spent n

def Call.hold : Call → Hold
  | .read r => r.pc.hold
  | .write w => w.pc.hold
  | .other => .nothing

theorem ReadStep.heapStep {g g' : Ch3} {i : Nat} {r r' : ReadCall}
    {o : Outcome} (h : ReadStep g i r o g' r') :
    NodeHeap.Step MsgList.msg g.heap r.pc.hold g'.heap r'.pc.hold := by
  cases h with
  | foundEmpty hpc hempty => rw [hpc]; exact .idle _
  | take n b rest t hpc hlist hptr hget =>
      rw [hpc]
      exact .take n b rest hlist hptr
  | copyEmpty hpc => rw [hpc]; exact .idle _
  | copy n t hpc => rw [hpc]; exact .idle _
  | freeMsg n b hpc hptr => rw [hpc]; exact .freeBuf n b hptr
  | freeNode n hpc => rw [hpc]; exact .freeNode n

theorem WriteStep.heapStep {g g' : Ch3} {i : Nat} {w w' : WriteCall}
    {o : Outcome} (h : WriteStep g i w o g' w') :
    NodeHeap.Step MsgList.msg g.heap w.pc.hold g'.heap w'.pc.hold := by
  cases h with
  | noNode hpc => rw [hpc]; exact .idle _
  | allocNode hpc => rw [hpc]; exact .allocNode _ rfl
  | noMsg n hpc => rw [hpc]; exact .noBuf n _ rfl
  | allocMsg n hpc => rw [hpc]; exact .allocBuf n _ o.junk rfl
  | copy n b hpc hptr => rw [hpc]; exact .store n b _ hptr
  | append n m hpc hcont => rw [hpc]; exact .append n

theorem ch3Step_heapStep {g g' : Ch3} {i : Nat} {l l' : Call} {o : Outcome}
    (h : ch3Step g i l o = some (g', l')) :
    NodeHeap.Step MsgList.msg g.heap l.hold g'.heap l'.hold := by
  rcases ch3Step_cases h with
    ⟨r, r', hr, hr', hread⟩ | ⟨w, w', hw, hw', hwrite⟩
  · rw [hr, hr']
    exact hread.heapStep
  · rw [hw, hw']
    exact hwrite.heapStep

/-- The ledger of the module. -/
def Ledger (c : Conf) : Prop :=
  Owned MsgList.msg c.shared.heap (c.calls.map Call.hold)

theorem loaded_ledger : Ledger loaded :=
  NodeHeap.owned_empty fun w hw => by simp [loaded, start] at hw

theorem hold_ch3Ioctl (k : Ioctl) : (ch3Ioctl k).hold = .nothing := by
  unfold ch3Ioctl
  split
  · rfl
  · split <;> rfl

theorem ledger_step (c : Conf) (mv : Move) (d : Conf) (h : Ledger c)
    (hst : step c mv = some d) : Ledger d := by
  rcases step_cases hst with
    ⟨k, hmv, hd⟩ | ⟨i, o, l, g, l', hmv, hl, hb, hd⟩
  · rw [hd, Ledger, List.map_append, List.map_singleton, hold_ch3Ioctl]
    exact h.issue
  · rw [hd, Ledger, List.map_set]
    exact h.step (lookup_map Call.hold hl) (ch3Step_heapStep hb)

/-! ## The history of the locked sections -/

/-- The list holds these messages, in this order. -/
def Holds (g : Ch3) (q : List MsgSt) : Prop :=
  g.msgListHead.map g.contents = q.map some

/-- The locked sections have worked like a FIFO queue. -/
def Linear (g : Ch3) : Prop := ∃ q, Legal g.history q ∧ Holds g q

theorem Linear.readStep {g g' : Ch3} {i : Nat} {r r' : ReadCall}
    {o : Outcome} {hs : List Hold} (ho : Owned MsgList.msg g.heap hs)
    (hl : hs[i]? = some r.pc.hold) (h : Linear g)
    (hst : ReadStep g i r o g' r') : Linear g' := by
  obtain ⟨q, hlegal, hq⟩ := h
  have hheap := hst.heapStep
  -- what stays in the list keeps its contents
  have hkeep : ∀ ns : List Nat, (∀ n ∈ ns, n ∈ g.msgListHead) →
      ns.map g'.contents = ns.map g.contents :=
    fun ns hns => ho.map_contents hl hheap hns
  cases hst with
  | foundEmpty hpc hempty =>
      rw [Holds, hempty] at hq
      have hnil : q = [] := List.map_eq_nil_iff.mp hq.symm
      subst hnil
      refine ⟨[], hlegal.empty i, ?_⟩
      rw [Holds, hempty]
      rfl
  | take n b rest t hpc hlist hptr hget =>
      have hsub : ∀ m ∈ rest, m ∈ g.msgListHead := by
        intro m hm
        rw [hlist]
        exact List.mem_cons_of_mem n hm
      have hfirst : g.contents n = some t := by
        show (g.msgPtr n).bind g.msgs.get = some t
        rw [hptr]
        exact hget
      rw [Holds, hlist, List.map_cons, hfirst] at hq
      cases q with
      | nil => cases hq
      | cons m q =>
          rw [List.map_cons, List.cons.injEq, Option.some.injEq] at hq
          obtain ⟨hm, hrest⟩ := hq
          subst hm
          exact ⟨q, hlegal.dequeue i, (hkeep rest hsub).trans hrest⟩
  | copyEmpty hpc => exact ⟨q, hlegal, hq⟩
  | copy n t hpc => exact ⟨q, hlegal, hq⟩
  | freeMsg n b hpc hptr =>
      exact ⟨q, hlegal, (hkeep _ fun _ hn => hn).trans hq⟩
  | freeNode n hpc =>
      exact ⟨q, hlegal, (hkeep _ fun _ hn => hn).trans hq⟩

theorem Linear.writeStep {g g' : Ch3} {i : Nat} {w w' : WriteCall}
    {o : Outcome} {hs : List Hold} (ho : Owned MsgList.msg g.heap hs)
    (hl : hs[i]? = some w.pc.hold) (h : Linear g)
    (hst : WriteStep g i w o g' w') : Linear g' := by
  obtain ⟨q, hlegal, hq⟩ := h
  have hheap := hst.heapStep
  have hkeep : g.msgListHead.map g'.contents = g.msgListHead.map g.contents :=
    ho.map_contents hl hheap fun _ hn => hn
  cases hst with
  | noNode hpc hmem => exact ⟨q, hlegal, hq⟩
  | allocNode hpc hmem => exact ⟨q, hlegal, hkeep.trans hq⟩
  | noMsg n hpc hmem => exact ⟨q, hlegal, hkeep.trans hq⟩
  | allocMsg n hpc hmem => exact ⟨q, hlegal, hkeep.trans hq⟩
  | copy n b hpc hptr => exact ⟨q, hlegal, hkeep.trans hq⟩
  | append n m hpc hcont =>
      refine ⟨q ++ [m], hlegal.enqueue i m, ?_⟩
      have hlast : Ch3.contents
          { g with
            nodes := g.nodes.touch n
            msgListHead := g.msgListHead ++ [n]
            history := g.history ++ [.enqueue i m] } n = some m := by
        rw [← hcont]
        simp [Ch3.contents, NodeHeap.contents, NodeHeap.buf, Ch3.heap]
      rw [Holds, List.map_append, List.map_append, hkeep]
      rw [Holds] at hq
      rw [hq, List.map_singleton, hlast]
      rfl

end EmbeddedSystem.Labs.Ch3Queue
