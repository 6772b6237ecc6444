import EmbeddedSystem.Labs.Ch4Ownership
import EmbeddedSystem.Verified.LinkedSlab

/-!
# The links of the ch4 queue

`Ch4Queue` keeps the queue of `ch4_mod_202111360.c` as the list of its nodes.
Here the same functions work on the links of `struct list_head`: `list_empty`
and `list_entry` read them, `list_add_tail` and `list_del` write them, and an
access to the links of a node that is not allocated is a fault, which stops
the call for good.

The two programs take the same steps.  Whatever the calls and their
interleaving, the links form a ring of the queued nodes in their order, and no
call is ever stopped by a fault.
-/

set_option autoImplicit false

namespace EmbeddedSystem.Labs.Ch4Links

open EmbeddedSystem.Verified
open EmbeddedSystem.Verified.Uaccess
open EmbeddedSystem.Verified.WaitQueue
open EmbeddedSystem.Verified.Transition
open EmbeddedSystem.Verified.CallPool
open EmbeddedSystem.Verified.ListHead
open EmbeddedSystem.Verified.LinkedSlab
open EmbeddedSystem.Verified.NodeHeap (Hold Owned)
open EmbeddedSystem.Labs.Ch4Queue (MsgList MsgSt ReadCall WriteCall Call
  Ioctl Ledger)

/-- The module's memory and globals.  `links` has the member `list` of every
node and of `msg_list_head`. -/
structure Ch4 where
  nodes : Slab MsgList
  msgs : Slab MsgSt
  links : Mem Ptr
  myWq : Queue

/-- After a successful `ch4_init`. -/
def ch4Init : Ch4 := ⟨Slab.empty, Slab.empty, initLinks, []⟩

/-- `node->msg` -/
def Ch4.msgPtr (g : Ch4) (n : Nat) : Option Nat := (g.nodes.get n).bind (·.msg)

/-- What the environment decides in a step, with the links that are found in
a node that is allocated in it. -/
structure Outcome where
  env : Ch4Queue.Outcome
  junk : ListHead Ptr

variable (poison1 poison2 : Ptr)

/-- One step of `ch4_read` by call `i`. -/
def ch4Read (g : Ch4) (i : Nat) (r : ReadCall) (o : Outcome) :
    Option (Ch4 × ReadCall) :=
  match r.pc with
  | .wait p =>
      match listEmpty g.links none with
      | none => none
      | some empty =>
          match waitEventInterruptible g.myWq i false (!empty) o.env.signal p
          with
          | none => none
          | some (q, .again p') =>
              some ({ g with myWq := q }, { r with pc := .wait p' })
          | some (q, .done ret) =>
              some ({ g with myWq := q },
                { r with
                  ret := ret
                  pc := if ret < 0 then .returned ret else .lock })
  | .lock =>
      match listEmpty g.links none with
      | none => none
      | some true => some (g, { r with pc := .returned (-efault) })
      | some false =>
          -- `list_entry(msg_list_head.list.next, struct msg_list, list)`
          match nextAt g.links none with
          | none => none
          | some none => none
          | some (some n) =>
              match g.msgPtr n with
              | none => none
              | some b =>
                  match g.msgs.get b with
                  | none => none
                  | some t =>
                      match listDel poison1 poison2 g.links (some n) with
                      | none => none
                      | some links =>
                          some ({ g with
                              nodes := g.nodes.touch n
                              msgs := g.msgs.touch b
                              links := links },
                            { r with pc := .copy n t })
  | .copy n t =>
      some (g, { r with
        userBuf := copyUser r.userBuf t o.env.left
        uncopied := some o.env.left
        pc := .freeMsg n (if o.env.left = 0 then 0 else -efault) })
  | .freeMsg n code =>
      match g.msgPtr n with
      | none => none
      | some b =>
          some ({ g with nodes := g.nodes.touch n, msgs := g.msgs.kfree b },
            { r with pc := .freeNode n code })
  | .freeNode n code =>
      some ({ g with
          nodes := g.nodes.kfree n
          links := store g.links (some n) none },
        { r with pc := .returned code })
  | .returned _ => none

/-- One step of `ch4_write`. -/
def ch4Write (g : Ch4) (w : WriteCall) (o : Outcome) :
    Option (Ch4 × WriteCall) :=
  match w.pc with
  | .allocNode =>
      if o.env.nomem then some (g, { w with pc := .returned (-enomem) })
      else
        some ({ g with
            nodes := g.nodes.kmalloc ⟨none⟩
            links := store g.links (some g.nodes.fresh) (some o.junk) },
          { w with pc := .allocMsg g.nodes.fresh })
  | .allocMsg n =>
      if o.env.nomem then
        some ({ g with nodes := (g.nodes.touch n).put n ⟨none⟩ },
          { w with pc := .freeNode n (-enomem) })
      else
        some ({ g with
            nodes := (g.nodes.touch n).put n ⟨some g.msgs.fresh⟩
            msgs := g.msgs.kmalloc o.env.junk },
          { w with pc := .copy n })
  | .copy n =>
      match g.msgPtr n with
      | none => none
      | some b =>
          some ({ g with
              nodes := g.nodes.touch n
              msgs := (g.msgs.touch b).put b
                (copyFromUser w.userBuf o.env.left) },
            { w with pc :=
                if o.env.left = 0 then .lock n else .freeMsg n (-efault) })
  | .freeMsg n code =>
      match g.msgPtr n with
      | none => none
      | some b =>
          some ({ g with nodes := g.nodes.touch n, msgs := g.msgs.kfree b },
            { w with pc := .freeNode n code })
  | .freeNode n code =>
      some ({ g with
          nodes := g.nodes.kfree n
          links := store g.links (some n) none },
        { w with pc := .returned code })
  | .lock n =>
      match listAddTail g.links (some n) none with
      | none => none
      | some links =>
          some ({ g with nodes := g.nodes.touch n, links := links },
            { w with pc := .wake })
  | .wake =>
      some ({ g with myWq := wakeUpInterruptible g.myWq },
        { w with pc := .returned 0 })
  | .returned _ => none

/-- One step of a call. -/
def ch4Step (g : Ch4) (i : Nat) (l : Call) (o : Outcome) :
    Option (Ch4 × Call) :=
  match l with
  | .read r => (ch4Read poison1 poison2 g i r o).map fun x => (x.1, .read x.2)
  | .write w => (ch4Write g w o).map fun x => (x.1, .write x.2)
  | .invalid _ => none

abbrev Conf := CallPool.Conf Ch4 Call

abbrev Move := CallPool.Move Ioctl Outcome

/-- One step of the whole module. -/
def step : Conf → Move → Option Conf :=
  CallPool.step Ch4Queue.ch4Ioctl (ch4Step poison1 poison2)

/-- The module right after it was loaded. -/
def loaded : Conf := CallPool.start ch4Init

/-- The same move of the program on lists. -/
def Move.onLists : Move → Ch4Queue.Move
  | .issue k => .issue k
  | .advance i o => .advance i o.env

/-! ## `ch4_exit` -/

/-- `kfree(tmp_node->msg); kfree(tmp_node);` -/
def freeTmpNode (n : Nat) (s : Slab MsgList × Slab MsgSt) :
    Option (Slab MsgList × Slab MsgSt) :=
  some ((s.1.touch n).kfree n,
    match (s.1.get n).bind (·.msg) with
    | none => s.2
    | some b => s.2.kfree b)

/-- `ch4_exit`, up to the removal of the device. -/
def ch4Exit (fuel : Nat) (g : Ch4) : Option Ch4 :=
  (emptyList poison1 poison2 freeTmpNode fuel ⟨g.links, g.nodes, g.msgs⟩).map
    fun s => ⟨s.rest.1, s.rest.2, s.links, wakeUpInterruptible g.myWq⟩

/-! ## The two programs -/

/-- The links represent the queue, and all else is the same. -/
structure Represents (g : Ch4) (a : Ch4Queue.Ch4) : Prop where
  nodes : g.nodes = a.nodes
  msgs : g.msgs = a.msgs
  myWq : g.myWq = a.myWq
  strung : Strung g.links g.nodes a.msgListHead

/-- The same calls are at the same places. -/
structure Refines (c : Conf) (d : Ch4Queue.Conf) : Prop where
  shared : Represents c.shared d.shared
  calls : c.calls = d.calls

variable {g : Ch4} {a : Ch4Queue.Ch4}

theorem Represents.msgPtr (h : Represents g a) (n : Nat) :
    g.msgPtr n = a.msgPtr n := by
  unfold Ch4.msgPtr Ch4Queue.Ch4.msgPtr
  rw [h.nodes]

/-- What a step of the two programs comes to. -/
abbrev SameStep {R : Type} : Option (Ch4 × R) → Option (Ch4Queue.Ch4 × R) →
    Prop :=
  Option.Rel fun x y => Represents x.1 y.1 ∧ x.2 = y.2

theorem SameStep.map {R T : Type} {x : Option (Ch4 × R)}
    {y : Option (Ch4Queue.Ch4 × R)} (f : R → T) (h : SameStep x y) :
    SameStep (x.map fun z => (z.1, f z.2)) (y.map fun z => (z.1, f z.2)) := by
  cases h with
  | none => exact .none
  | some hz => exact .some ⟨hz.1, congrArg f hz.2⟩

theorem SameStep.none_iff {R : Type} {x : Option (Ch4 × R)}
    {y : Option (Ch4Queue.Ch4 × R)} (h : SameStep x y) :
    x = none ↔ y = none := by
  cases h <;> simp

theorem ch4Read_refines (h : Represents g a) {r : ReadCall}
    (hfree : ∀ n code, r.pc = .freeNode n code → n ∉ a.msgListHead)
    (i : Nat) (o : Outcome) :
    SameStep (ch4Read poison1 poison2 g i r o)
      (Ch4Queue.ch4Read a i r o.env) := by
  have hempty := h.strung.listEmpty
  unfold ch4Read Ch4Queue.ch4Read
  cases hpc : r.pc with
  | wait p =>
      simp only [hempty, ← h.myWq]
      cases waitEventInterruptible g.myWq i false (!a.msgListHead.isEmpty)
          o.env.signal p with
      | none => exact .none
      | some x =>
          obtain ⟨q, progress⟩ := x
          cases progress with
          | again p' =>
              exact .some ⟨⟨h.nodes, h.msgs, rfl, h.strung⟩, rfl⟩
          | done ret =>
              exact .some ⟨⟨h.nodes, h.msgs, rfl, h.strung⟩, rfl⟩
  | lock =>
      have hfirst := h.strung.first
      have hstrung := h.strung
      cases hlist : a.msgListHead with
      | nil =>
          rw [hlist] at hempty
          simp only [hempty, List.isEmpty_nil]
          exact .some ⟨h, rfl⟩
      | cons n rest =>
          rw [hlist] at hempty hfirst hstrung
          simp only [hempty, List.isEmpty_cons, hfirst, List.head?_cons,
            h.msgPtr, h.msgs]
          cases a.msgPtr n with
          | none => exact .none
          | some b =>
              dsimp only
              cases a.msgs.get b with
              | none => exact .none
              | some t =>
                  have hfront : Strung g.links g.nodes ([] ++ n :: rest) :=
                    hstrung
                  obtain ⟨links, hdel, hrest⟩ :=
                    hfront.listDel poison1 poison2
                  simp only [hdel]
                  refine .some ⟨⟨by rw [h.nodes], rfl, h.myWq, ?_⟩, rfl⟩
                  exact hrest.of_live fun k => Slab.live_touch _ n k
  | copy n t => exact .some ⟨h, rfl⟩
  | freeMsg n code =>
      simp only [h.msgPtr]
      cases a.msgPtr n with
      | none => exact .none
      | some b =>
          refine .some ⟨⟨by rw [h.nodes], by rw [h.msgs], h.myWq, ?_⟩, rfl⟩
          exact h.strung.of_live fun k => Slab.live_touch _ n k
  | freeNode n code =>
      refine .some ⟨⟨by rw [h.nodes], h.msgs, h.myWq, ?_⟩, rfl⟩
      exact h.strung.kfree (hfree n code hpc)
  | returned code => exact .none

theorem ch4Write_refines (h : Represents g a) {w : WriteCall}
    (hfree : ∀ n code, w.pc = .freeNode n code → n ∉ a.msgListHead)
    (hlock : ∀ n, w.pc = .lock n → n ∉ a.msgListHead ∧
      a.nodes.live n = true ∧ ∃ m, a.contents n = some m)
    (i : Nat) (o : Outcome) :
    SameStep (ch4Write g w o) (Ch4Queue.ch4Write a i w o.env) := by
  unfold ch4Write Ch4Queue.ch4Write
  cases hpc : w.pc with
  | allocNode =>
      by_cases hmem : o.env.nomem
      · simp only [hmem, if_true]
        exact .some ⟨h, rfl⟩
      · simp only [hmem]
        refine .some ⟨⟨by rw [h.nodes], h.msgs, h.myWq, ?_⟩, by rw [h.nodes]⟩
        exact h.strung.kmalloc ⟨none⟩ o.junk
  | allocMsg n =>
      have hlive : ∀ v k,
          ((g.nodes.touch n).put n v).live k = g.nodes.live k := by
        intro v k
        rw [Slab.live_put, Slab.live_touch]
      by_cases hmem : o.env.nomem
      · simp only [hmem, if_true]
        exact .some ⟨⟨by rw [h.nodes], h.msgs, h.myWq,
          h.strung.of_live (hlive _)⟩, rfl⟩
      · simp only [hmem]
        exact .some ⟨⟨by rw [h.nodes, h.msgs], by rw [h.msgs], h.myWq,
          h.strung.of_live (hlive _)⟩, rfl⟩
  | copy n =>
      simp only [h.msgPtr, h.msgs]
      cases a.msgPtr n with
      | none => exact .none
      | some b =>
          refine .some ⟨⟨by rw [h.nodes], rfl, h.myWq, ?_⟩, rfl⟩
          exact h.strung.of_live fun k => Slab.live_touch _ n k
  | freeMsg n code =>
      simp only [h.msgPtr]
      cases a.msgPtr n with
      | none => exact .none
      | some b =>
          refine .some ⟨⟨by rw [h.nodes], by rw [h.msgs], h.myWq, ?_⟩, rfl⟩
          exact h.strung.of_live fun k => Slab.live_touch _ n k
  | freeNode n code =>
      refine .some ⟨⟨by rw [h.nodes], h.msgs, h.myWq, ?_⟩, rfl⟩
      exact h.strung.kfree (hfree n code hpc)
  | lock n =>
      obtain ⟨hnot, hlive, m, hm⟩ := hlock n hpc
      rw [← h.nodes] at hlive
      obtain ⟨links, hadd, hrest⟩ := h.strung.listAddTail hnot hlive
      simp only [hadd, hm]
      refine .some ⟨⟨by rw [h.nodes], h.msgs, h.myWq, ?_⟩, rfl⟩
      exact hrest.of_live fun k => Slab.live_touch _ n k
  | wake =>
      exact .some ⟨⟨h.nodes, h.msgs, by rw [h.myWq], h.strung⟩, rfl⟩
  | returned code => exact .none

/-! ## Every step and every run -/

/-- A node in a call's hands is live and not queued. -/
theorem held_node {d : Ch4Queue.Conf} (hledger : Ledger d) {i n : Nat}
    {l : Call} (hl : d.calls[i]? = some l) (hn : l.hold.node = some n) :
    d.shared.nodes.live n = true ∧ n ∉ d.shared.msgListHead := by
  obtain ⟨hlive, hcount, -⟩ := hledger.held (lookup_map Call.hold hl) hn
  exact ⟨hlive, List.count_eq_zero.mp hcount⟩

/-- A node that is held with its buffer has contents. -/
theorem held_contents {d : Ch4Queue.Conf} (hledger : Ledger d) {i n : Nat}
    {l : Call} (hl : d.calls[i]? = some l) (hn : l.hold = .full n) :
    ∃ b m, d.shared.msgPtr n = some b ∧ d.shared.msgs.get b = some m := by
  have hfull : (d.calls.map Call.hold)[i]? = some (.full n) := by
    rw [lookup_map Call.hold hl, hn]
  obtain ⟨b, hb, hlive⟩ := hledger.heldFull hfull
  cases hget : d.shared.msgs.get b with
  | none =>
      have hge := (Slab.get_eq_none_iff d.shared.msgs b).mp hget
      have hlt := Slab.lt_fresh_of_live hlive
      exact absurd hlt (Nat.not_lt_of_ge hge)
  | some m => exact ⟨b, m, hb, hget⟩

theorem ch4Step_refines {c : Conf} {d : Ch4Queue.Conf} (h : Refines c d)
    (hledger : Ledger d) {i : Nat} {l : Call} (hl : d.calls[i]? = some l)
    (o : Outcome) :
    SameStep (ch4Step poison1 poison2 c.shared i l o)
      (Ch4Queue.ch4Step d.shared i l o.env) := by
  cases l with
  | read r =>
      have hstep := ch4Read_refines poison1 poison2 h.shared (r := r)
        (fun n code hpc => (held_node hledger hl (by
          rw [Call.hold, hpc]
          rfl)).2) i o
      exact hstep.map Call.read
  | write w =>
      have hstep := ch4Write_refines h.shared (w := w)
        (fun n code hpc => (held_node hledger hl (by
          rw [Call.hold, hpc]
          rfl)).2)
        (fun n hpc => by
          have hfull : (Call.write w).hold = .full n := by
            rw [Call.hold, hpc]
            rfl
          have hheld := held_node hledger hl (by rw [hfull]; rfl)
          obtain ⟨b, m, hb, hm⟩ := held_contents hledger hl hfull
          refine ⟨hheld.2, hheld.1, m, ?_⟩
          rw [Ch4Queue.Ch4.contents, hb]
          exact hm) i o
      exact hstep.map Call.write
  | invalid code => exact .none

theorem step_refines {c : Conf} {d : Ch4Queue.Conf} (h : Refines c d)
    (hledger : Ledger d) (mv : Move) :
    Option.Rel Refines (step poison1 poison2 c mv)
      (Ch4Queue.step d mv.onLists) := by
  cases mv with
  | issue k =>
      refine .some ⟨h.shared, ?_⟩
      rw [h.calls]
  | advance i o =>
      have hcalls := h.calls
      unfold step Ch4Queue.step Move.onLists CallPool.step
      dsimp only
      rw [hcalls]
      cases hl : d.calls[i]? with
      | none => exact .none
      | some l =>
          have hstep := ch4Step_refines poison1 poison2 h hledger hl o
          dsimp only
          generalize ch4Step poison1 poison2 c.shared i l o = x at hstep ⊢
          generalize Ch4Queue.ch4Step d.shared i l o.env = y at hstep ⊢
          cases hstep with
          | none => exact .none
          | some hx =>
              refine .some ⟨hx.1, ?_⟩
              rw [hx.2]

/-- The two programs, started alike. -/
theorem run_refines {c : Conf} {d : Ch4Queue.Conf} (h : Refines c d)
    (hledger : Ledger d) (mvs : List Move) :
    Option.Rel Refines (run (step poison1 poison2) c mvs)
      (run Ch4Queue.step d (mvs.map Move.onLists)) := by
  induction mvs generalizing c d with
  | nil => exact .some h
  | cons mv mvs ih =>
      rw [List.map_cons, run_cons, run_cons]
      have hstep := step_refines poison1 poison2 h hledger mv
      generalize step poison1 poison2 c mv = c' at hstep ⊢
      generalize hd' : Ch4Queue.step d mv.onLists = d' at hstep ⊢
      cases hstep with
      | none => exact .none
      | some hx => exact ih hx (Ch4Queue.ledger_step _ _ _ hledger hd')

theorem loaded_refines : Refines loaded Ch4Queue.loaded :=
  ⟨⟨rfl, rfl, rfl, strung_init⟩, rfl⟩

/-! ## Where a call can be refused its step -/

/-- The call sleeps in `schedule()` and nobody has woken it. -/
def asleep (g : Ch4) (i : Nat) : Call → Bool
  | .read ⟨_, _, _, .wait .asleep⟩ => marked g.myWq i
  | _ => false

/-- A call in progress goes on in every step, unless it sleeps. -/
theorem ch4Step_none_iff {c : Conf} {d : Ch4Queue.Conf} (h : Refines c d)
    (hledger : Ledger d) {i : Nat} {l : Call} (hl : d.calls[i]? = some l)
    (hbusy : l.inProgress = true) (o : Outcome) :
    ch4Step poison1 poison2 c.shared i l o = none ↔
      asleep c.shared i l = true ∧ o.env.signal = false := by
  rw [(ch4Step_refines poison1 poison2 h hledger hl o).none_iff]
  cases l with
  | invalid code => cases hbusy
  | read r =>
      obtain ⟨userBuf, ret, uncopied, pc⟩ := r
      simp only [Ch4Queue.ch4Step, Option.map_eq_none_iff]
      cases pc with
      | wait p =>
          unfold Ch4Queue.ch4Read asleep
          rw [h.shared.myWq]
          cases p with
          | entry =>
              cases d.shared.msgListHead.isEmpty <;>
                simp [waitEventInterruptible]
          | prepare => cases o.env.signal <;> simp [waitEventInterruptible]
          | test sig =>
              cases d.shared.msgListHead.isEmpty <;> cases sig <;>
                simp [waitEventInterruptible]
          | asleep =>
              cases o.env.signal <;>
                cases hm : marked d.shared.myWq i <;>
                simp [waitEventInterruptible, hm]
      | lock =>
          cases hlist : d.shared.msgListHead with
          | nil => simp [Ch4Queue.ch4Read, hlist, asleep]
          | cons n rest =>
              have hmem : n ∈ d.shared.heap.queue := by
                rw [Ch4Queue.Ch4.heap, hlist]
                exact List.mem_cons_self
              obtain ⟨-, b, hb, hlive⟩ := hledger.queued hmem
              have hptr : d.shared.msgPtr n = some b := hb
              cases hget : d.shared.msgs.get b with
              | none =>
                  have hge := (Slab.get_eq_none_iff d.shared.msgs b).mp hget
                  have hlt := Slab.lt_fresh_of_live hlive
                  exact absurd hlt (Nat.not_lt_of_ge hge)
              | some t =>
                  simp [Ch4Queue.ch4Read, hlist, hptr, hget, asleep]
      | copy n t => simp [Ch4Queue.ch4Read, asleep]
      | freeMsg n code =>
          obtain ⟨b, m, hb, hm⟩ := held_contents hledger hl rfl
          simp [Ch4Queue.ch4Read, hb, asleep]
      | freeNode n code => simp [Ch4Queue.ch4Read, asleep]
      | returned code => cases hbusy
  | write w =>
      obtain ⟨userBuf, pc⟩ := w
      simp only [Ch4Queue.ch4Step, Option.map_eq_none_iff]
      cases pc with
      | allocNode =>
          by_cases hmem : o.env.nomem <;>
            simp [Ch4Queue.ch4Write, hmem, asleep]
      | allocMsg n =>
          by_cases hmem : o.env.nomem <;>
            simp [Ch4Queue.ch4Write, hmem, asleep]
      | copy n =>
          obtain ⟨b, m, hb, hm⟩ := held_contents hledger hl rfl
          simp [Ch4Queue.ch4Write, hb, asleep]
      | freeMsg n code =>
          obtain ⟨b, m, hb, hm⟩ := held_contents hledger hl rfl
          simp [Ch4Queue.ch4Write, hb, asleep]
      | freeNode n code => simp [Ch4Queue.ch4Write, asleep]
      | lock n =>
          obtain ⟨b, m, hb, hm⟩ := held_contents hledger hl rfl
          have hcont : d.shared.contents n = some m := by
            rw [Ch4Queue.Ch4.contents, hb]
            exact hm
          simp [Ch4Queue.ch4Write, hcont, asleep]
      | wake => simp [Ch4Queue.ch4Write, asleep]
      | returned code => cases hbusy

/-! ## Unloading -/

/-- With no call in progress, `ch4_exit` walks over the links of all nodes
that are left, and ends as the program on lists does. -/
theorem ch4Exit_refines {c : Conf} {d : Ch4Queue.Conf} (h : Refines c d)
    (hledger : Ledger d) {fuel : Nat}
    (hfuel : d.shared.msgListHead.length < fuel) :
    ∃ g, ch4Exit poison1 poison2 fuel c.shared = some g ∧
      Represents g (Ch4Queue.ch4Exit d.shared) := by
  -- the rest of the loop of the program on lists leads to the same end
  let I : List Nat → Slab MsgList × Slab MsgSt → Prop := fun q s =>
    ∃ b : Ch4Queue.Ch4, Owned MsgList.msg b.heap (d.calls.map Call.hold) ∧
      b.msgListHead = q ∧ s = (b.nodes, b.msgs) ∧
      b.myWq = wakeUpInterruptible d.shared.myWq ∧
      Ch4Queue.ch4ExitLoop b q = Ch4Queue.ch4Exit d.shared
  have hstart : I d.shared.msgListHead (c.shared.nodes, c.shared.msgs) := by
    refine ⟨{ d.shared with myWq := wakeUpInterruptible d.shared.myWq },
      hledger, rfl, ?_, rfl, rfl⟩
    rw [h.shared.nodes, h.shared.msgs]
  have hfree : ∀ n q s, I (n :: q) s → ∃ s', freeTmpNode n s = some s' ∧
      I q s' ∧ ∀ k, s'.1.live k = (s.1.live k && n != k) := by
    rintro n q s ⟨b, hown, hq, rfl, hwq, hloop⟩
    have hmem : n ∈ b.heap.queue := by
      rw [Ch4Queue.Ch4.heap, hq]
      exact List.mem_cons_self
    obtain ⟨-, m, hm, -⟩ := hown.queued hmem
    have hptr : b.msgPtr n = some m := hm
    have hrel := hown.release hq hm
    unfold Ch4Queue.ch4ExitLoop at hloop
    rw [hptr] at hloop
    let b' : Ch4Queue.Ch4 :=
      { b with
        nodes := (b.nodes.touch n).kfree n
        msgs := b.msgs.kfree m
        msgListHead := q }
    refine ⟨_, rfl, ⟨b', hrel, rfl, ?_, hwq, hloop⟩, fun k => ?_⟩
    · have hget : (b.nodes.get n).bind (·.msg) = some m := hptr
      simp only [hget, b']
    · show ((b.nodes.touch n).kfree n).live k = _
      rw [Slab.live_kfree, Slab.live_touch]
  obtain ⟨s, hs, hstrung, b, hown, hempty, hrest, hwq, hloop⟩ :=
    emptyList_spec (I := I) poison1 poison2 hfree h.shared.strung hstart hfuel
  refine ⟨⟨s.rest.1, s.rest.2, s.links,
    wakeUpInterruptible c.shared.myWq⟩, ?_, ?_⟩
  · rw [ch4Exit, hs]
    rfl
  · have hend : b = Ch4Queue.ch4Exit d.shared := hloop
    rw [← hend]
    refine ⟨?_, ?_, ?_, ?_⟩
    · rw [hrest]
    · rw [hrest]
    · rw [hwq, h.shared.myWq]
    · rw [hempty]
      exact hstrung

/-! ## The result -/

/-- The program on links and the program on lists allow the same moves, and
whatever run they take, they end with the same calls, the same nodes and the
same messages, and with the links of exactly the queued nodes in their order.
No call in progress is refused a step unless it sleeps and no signal is
pending: no access to a link ever faults.  And once no call is in progress,
`ch4_exit` can walk over the links and leaves no node allocated. -/
theorem links_refine_queue (mvs : List Move) :
    Option.Rel Refines (run (step poison1 poison2) loaded mvs)
        (run Ch4Queue.step Ch4Queue.loaded (mvs.map Move.onLists)) ∧
      ∀ c, run (step poison1 poison2) loaded mvs = some c →
        (∀ i l o, c.calls[i]? = some l → l.inProgress = true →
          (step poison1 poison2 c (.advance i o) = none ↔
            asleep c.shared i l = true ∧ o.env.signal = false)) ∧
        ((∀ l ∈ c.calls, l.inProgress = false) →
          ∃ rounds, ∀ fuel, rounds < fuel →
            ∃ g, ch4Exit poison1 poison2 fuel c.shared = some g ∧
              (∀ n, g.links (some n) = none) ∧
              (∀ p, p < g.nodes.fresh → g.nodes.freeCount p = 1) ∧
              (∀ b, b < g.msgs.fresh → g.msgs.freeCount b = 1) ∧
              g.nodes.stale = 0 ∧ g.msgs.stale = 0) := by
  have hrel := run_refines poison1 poison2 loaded_refines
    Ch4Queue.loaded_ledger mvs
  refine ⟨hrel, fun c hc => ?_⟩
  rw [hc] at hrel
  generalize hd : run Ch4Queue.step Ch4Queue.loaded
    (mvs.map Move.onLists) = x at hrel
  cases hrel with
  | some h =>
      rename_i d
      have hledger : Ledger d :=
        run_induct Ch4Queue.ledger_step Ch4Queue.loaded_ledger hd
      refine ⟨fun i l o hl hbusy => ?_, fun hidle => ?_⟩
      · have hld : d.calls[i]? = some l := h.calls ▸ hl
        rw [← ch4Step_none_iff poison1 poison2 h hledger hld hbusy o]
        unfold step CallPool.step
        simp only [hl]
        cases ch4Step poison1 poison2 c.shared i l o with
        | none => simp
        | some x => simp
      · refine ⟨d.shared.msgListHead.length, fun fuel hfuel => ?_⟩
        obtain ⟨g, hg, hrep⟩ :=
          ch4Exit_refines poison1 poison2 h hledger hfuel
        obtain ⟨hnodes, hmsgs, hstale⟩ := hledger.freedOnce fun l hl =>
          hidle l (h.calls.symm ▸ hl)
        have hnodes' : ∀ p, p < g.nodes.fresh → g.nodes.freeCount p = 1 := by
          rw [hrep.nodes]
          exact hnodes
        refine ⟨g, hg, fun n => ?_, hnodes', ?_, ?_, ?_⟩
        · -- a node that was freed once is not live
          have hdead : g.nodes.live n ≠ true := by
            intro hlive
            have hone := hnodes' n (Slab.lt_fresh_of_live hlive)
            rw [Slab.freeCount_of_live hlive] at hone
            cases hone
          rcases Option.eq_none_or_eq_some (g.links (some n)) with hno | ⟨v, hv⟩
          · exact hno
          · refine absurd ((hrep.strung.allocated n).mp ?_) hdead
            rw [hv]
            exact Option.some_ne_none v
        · rw [hrep.msgs]
          exact hmsgs
        · rw [hrep.nodes]
          exact hstale.1
        · rw [hrep.msgs]
          exact hstale.2

end EmbeddedSystem.Labs.Ch4Links
