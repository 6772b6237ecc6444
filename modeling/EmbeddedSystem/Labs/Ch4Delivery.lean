import EmbeddedSystem.Labs.Ch4Order
import Mathlib.Data.List.Nodup

/-!
# What the ch4 queue delivers

The three promises of a blocking message queue, read off the invariant of
`Ch4Order`.

* `fifoExclusive`: messages come out in the order they went in, each to at
  most one reader, and byte for byte.
* `lostOnlyByFault`: a message that was accepted is in the queue, in the hands
  of a reader or delivered, with one exception.  `ch4_read` takes the node off
  before it copies the message out, and when `copy_to_user` fails it frees
  both; `faultRun` is such a run.
* `noSpuriousReturn_iff`: a read returns only with a message, on a signal or
  because its own buffer is bad, exactly as long as no reader finds the list
  empty again once it has the lock.  `raceRun` is a run in which one does.
-/

set_option autoImplicit false

namespace EmbeddedSystem.Labs.Ch4Queue

open EmbeddedSystem.Verified
open EmbeddedSystem.Verified.Uaccess
open EmbeddedSystem.Verified.Transition
open EmbeddedSystem.Verified.CallPool

/-! ## Runs to try things on -/

/-- An ordinary outcome: no signal, enough memory, complete copies. -/
def smooth : Outcome := ⟨false, 0, false, Vector.replicate 132 0⟩

/-- The messages of the runs below. -/
def hello : MsgSt := Vector.replicate 132 104

def world : MsgSt := Vector.replicate 132 119

/-- Call 0 writes `hello`. -/
def writeRun : List Move :=
  [ .issue ⟨ch4IoctlWrite, hello⟩
  , .advance 0 smooth, .advance 0 smooth, .advance 0 smooth
  , .advance 0 smooth, .advance 0 smooth ]

/-- Call 0 sleeps on the empty list.  Calls 1 and 2 write side by side, the
second one is first in the queue and wakes call 0.  Call 3 takes its message
and faults on it; call 0 gets the other one.  Call 4 fails to write. -/
def exchangeRun : List Move :=
  List.flatten
    [ [.issue ⟨ch4IoctlRead, Vector.replicate 132 0⟩]
    , List.replicate 3 (.advance 0 smooth)
    , [.issue ⟨ch4IoctlWrite, hello⟩, .issue ⟨ch4IoctlWrite, world⟩]
    , [.advance 1 smooth, .advance 2 smooth, .advance 1 smooth]
    , List.replicate 3 (.advance 2 smooth)
    , [.advance 1 smooth, .advance 1 smooth, .advance 2 smooth]
    , [.advance 0 smooth, .advance 0 smooth, .advance 0 smooth]
    , [.issue ⟨ch4IoctlRead, Vector.replicate 132 0⟩]
    , [.advance 3 smooth, .advance 3 smooth, .advance 0 smooth]
    , [.advance 1 smooth, .advance 3 { smooth with left := 1 }]
    , List.replicate 3 (.advance 0 smooth)
    , List.replicate 2 (.advance 3 smooth)
    , [.issue ⟨ch4IoctlWrite, hello⟩, .advance 4 smooth, .advance 4 smooth]
    , [.advance 4 { smooth with left := 4 }]
    , List.replicate 2 (.advance 4 smooth) ]

/-- Where `exchangeRun` ends. -/
theorem exchangeRun_ends :
    ∃ c, run step loaded exchangeRun = some c ∧
      c.calls.map Call.writeResult =
        [none, some 0, some 0, none, some (-efault)] ∧
      c.calls.map Call.readResult =
        [some 0, none, none, some (-efault), none] := by
  have hend : (run step loaded exchangeRun).map (fun c =>
      (c.calls.map Call.writeResult, c.calls.map Call.readResult)) =
        some ([none, some 0, some 0, none, some (-efault)],
          [some 0, none, none, some (-efault), none]) := by
    decide +kernel
  obtain ⟨c, hrun, hcalls⟩ := Option.map_eq_some_iff.mp hend
  obtain ⟨hwrites, hreads⟩ := Prod.mk.inj hcalls
  exact ⟨c, hrun, hwrites, hreads⟩

/-! ## First in, first out, to one reader each -/

/-- What was appended was removed or is queued. -/
theorem Ch4.InOrder.appended_cases {g : Ch4} (h : g.InOrder) {x : Handed}
    (hx : x ∈ g.appended) :
    (∃ y ∈ g.removed, y.node = x.node ∧ y.msg = x.msg) ∨
      (x.node ∈ g.msgListHead ∧ g.contents x.node = some x.msg) := by
  have hmem : x.parcel ∈ g.appended.map Handed.parcel :=
    List.mem_map_of_mem hx
  rw [h] at hmem
  rcases List.mem_append.mp hmem with hrem | hq
  · obtain ⟨y, hy, heq⟩ := List.mem_map.mp hrem
    obtain ⟨hnode, hmsg⟩ := Prod.mk.inj heq
    exact Or.inl ⟨y, hy, hnode, Option.some.inj hmsg⟩
  · obtain ⟨p, hp, heq⟩ := List.mem_map.mp hq
    obtain ⟨hnode, hmsg⟩ := Prod.mk.inj heq
    subst hnode
    exact Or.inr ⟨hp, hmsg⟩

/-- The nodes in the order of `Ch4.InOrder`. -/
theorem Ch4.InOrder.nodes {g : Ch4} (h : g.InOrder) :
    g.appended.map (·.node) = g.removed.map (·.node) ++ g.msgListHead := by
  have hfst := congrArg (List.map Prod.fst) h
  simpa [Handed.parcel, Ch4.parcel, Function.comp_def] using hfst

/-- Any call that has appended or removed something is a call of the right
kind. -/
theorem mem_appended_call {c : Conf} (h : Annotated Ordered CallOk c)
    {x : Handed} (hx : x ∈ c.shared.appended) :
    ∃ w, c.calls[x.call]? = some (.write w) ∧ w.userBuf = x.msg ∧
      (w.pc = .wake ∨ w.pc = .returned 0) := by
  have hlt := h.shared.appended_lt x hx
  have hget := List.getElem?_eq_getElem hlt
  have hmem : x ∈ c.shared.appendedBy x.call :=
    List.mem_filter.mpr ⟨hx, by simp⟩
  have hok := h.call x.call _ hget
  cases hl : c.calls[x.call] with
  | read r =>
      rw [hl] at hok
      rw [hok.1] at hmem
      cases hmem
  | invalid code =>
      rw [hl] at hok
      rw [hok.1] at hmem
      cases hmem
  | write w =>
      rw [hl] at hok hget
      refine ⟨w, hget, ?_⟩
      have hw := hok.2
      unfold WriteOk at hw
      split at hw
      case h_7 hpc =>
        obtain ⟨n, hn⟩ := hw
        rw [hn] at hmem
        rw [List.mem_singleton.mp hmem]
        exact ⟨rfl, Or.inl hpc⟩
      case h_8 code hpc =>
        rcases hw with ⟨hnone, -⟩ | ⟨rfl, n, hn⟩
        · rw [hnone] at hmem
          cases hmem
        · rw [hn] at hmem
          rw [List.mem_singleton.mp hmem]
          exact ⟨rfl, Or.inr hpc⟩
      all_goals
        simp only [hw] at hmem
        cases hmem

/-- A read that has removed something holds it or has answered with it. -/
theorem mem_removed_call {c : Conf} (h : Annotated Ordered CallOk c)
    {x : Handed} (hx : x ∈ c.shared.removed) :
    ∃ r, c.calls[x.call]? = some (.read r) ∧
      c.shared.removedBy x.call = [x] ∧
      (r.pc = .copy x.node x.msg ∨
        ∃ code, r.Answered x.msg code ∧
          (r.pc = .freeMsg x.node code ∨ r.pc = .freeNode x.node code ∨
            r.pc = .returned code)) := by
  have hlt := h.shared.removed_lt x hx
  have hget := List.getElem?_eq_getElem hlt
  have hmem : x ∈ c.shared.removedBy x.call :=
    List.mem_filter.mpr ⟨hx, by simp⟩
  have hok := h.call x.call _ hget
  cases hl : c.calls[x.call] with
  | write w =>
      rw [hl] at hok
      rw [hok.1] at hmem
      cases hmem
  | invalid code =>
      rw [hl] at hok
      rw [hok.2] at hmem
      cases hmem
  | read r =>
      rw [hl] at hok hget
      refine ⟨r, hget, ?_⟩
      have hr := hok.2
      unfold ReadOk at hr
      split at hr
      case h_1 =>
        rw [hr.1] at hmem
        cases hmem
      case h_2 =>
        rw [hr.1] at hmem
        cases hmem
      case h_3 n t hpc =>
        rw [hr] at hmem
        rw [List.mem_singleton.mp hmem]
        exact ⟨hr, Or.inl hpc⟩
      case h_4 n code hpc =>
        obtain ⟨t, htook, hans⟩ := hr
        rw [htook] at hmem
        rw [List.mem_singleton.mp hmem]
        exact ⟨htook, Or.inr ⟨code, hans, Or.inl hpc⟩⟩
      case h_5 n code hpc =>
        obtain ⟨t, htook, hans⟩ := hr
        rw [htook] at hmem
        rw [List.mem_singleton.mp hmem]
        exact ⟨htook, Or.inr ⟨code, hans, Or.inr (Or.inl hpc)⟩⟩
      case h_6 code hpc =>
        rcases hr with ⟨hnone, -⟩ | ⟨n, t, htook, hans⟩
        · rw [hnone] at hmem
          cases hmem
        · rw [htook] at hmem
          rw [List.mem_singleton.mp hmem]
          exact ⟨htook, Or.inr ⟨code, hans, Or.inr (Or.inr hpc)⟩⟩

/-- First in, first out, with exclusive and exact delivery. -/
structure FifoExclusive (c : Conf) : Prop where
  /-- appended = removed, then queued; nodes and contents -/
  fifo : c.shared.appended.map Handed.parcel =
    c.shared.removed.map Handed.parcel ++
      c.shared.msgListHead.map c.shared.parcel
  /-- no node is appended twice -/
  distinct : (c.shared.appended.map (·.node)).Nodup
  /-- an appended message is removed at most once, by one reader -/
  exclusive : ∀ x ∈ c.shared.removed, ∀ y ∈ c.shared.removed,
    x.node = y.node → x = y
  /-- a read that returns 0 has copied out the one message it removed -/
  delivered : ∀ i r, c.calls[i]? = some (.read r) → r.pc = .returned 0 →
    ∃ n, c.shared.removedBy i = [⟨i, n, r.userBuf⟩]
  /-- an appended message is its writer's whole buffer -/
  complete : ∀ x ∈ c.shared.appended,
    ∃ w, c.calls[x.call]? = some (.write w) ∧ w.userBuf = x.msg
  /-- a failed write appends nothing -/
  failed : ∀ i w code, c.calls[i]? = some (.write w) →
    w.pc = .returned code → code ≠ 0 → c.shared.appendedBy i = []

/-- Two removals of one node are the same removal. -/
theorem removed_unique {g : Ch4} (hord : g.InOrder)
    (hnodup : (g.appended.map (·.node)).Nodup) {x y : Handed}
    (hx : x ∈ g.removed) (hy : y ∈ g.removed) (hxy : x.node = y.node) :
    x = y := by
  rw [hord.nodes, List.nodup_append] at hnodup
  exact List.inj_on_of_nodup_map hnodup.1 hx hy hxy

theorem fifoExclusive {mvs : List Move} {c : Conf}
    (h : run step loaded mvs = some c) : FifoExclusive c := by
  obtain ⟨hacc, hok⟩ := reachable_ok h
  refine
    { fifo := hok.shared.order
      distinct := hacc.nodup
      exclusive := fun x hx y hy hxy =>
        removed_unique hok.shared.order hacc.nodup hx hy hxy
      delivered := ?_
      complete := ?_
      failed := ?_ }
  · intro i r hl hpc
    have hr := (hok.call i _ hl).2
    rw [ReadOk, hpc] at hr
    rcases hr with ⟨-, -, ⟨-, hneg⟩ | ⟨hcode, -⟩⟩ | ⟨n, t, htook, hans⟩
    · omega
    · exact absurd hcode (by decide)
    · rcases hans with ⟨-, -, hbuf⟩ | ⟨hcode, -⟩
      · exact ⟨n, hbuf ▸ htook⟩
      · exact absurd hcode (by decide)
  · intro x hx
    obtain ⟨w, hl, hbuf, -⟩ := mem_appended_call hok hx
    exact ⟨w, hl, hbuf⟩
  · intro i w code hl hpc hcode
    have hw := (hok.call i _ hl).2
    rw [WriteOk, hpc] at hw
    rcases hw with ⟨hnone, -⟩ | ⟨hzero, -⟩
    · exact hnone
    · exact absurd hzero hcode

theorem fifoExclusive_exchangeRun :
    ∃ c, run step loaded exchangeRun = some c ∧ FifoExclusive c :=
  exchangeRun_ends.imp fun _ h => ⟨h.1, fifoExclusive h.1⟩

/-! ## Which messages are lost -/

/-- The read is still to return and has a message in its hands. -/
def ReadCall.Holds (r : ReadCall) (n : Nat) (t : MsgSt) : Prop :=
  r.pc = .copy n t ∨ ∃ code, r.pc = .freeMsg n code ∨ r.pc = .freeNode n code

/-- Message `x` was taken by a `ch4_read` that is still in progress or has
copied it out and returned 0. -/
def Served (c : Conf) (x : Handed) : Prop :=
  ∃ j r, c.calls[j]? = some (.read r) ∧
    c.shared.removedBy j = [⟨j, x.node, x.msg⟩] ∧
    (r.Holds x.node x.msg ∨ (r.pc = .returned 0 ∧ r.userBuf = x.msg))

/-- Message `x` was taken by a `ch4_read` whose `copy_to_user` fell short. -/
def Faulted (c : Conf) (x : Handed) : Prop :=
  ∃ j r left, c.calls[j]? = some (.read r) ∧
    c.shared.removedBy j = [⟨j, x.node, x.msg⟩] ∧
    r.pc = .returned (-efault) ∧ r.uncopied = some left ∧ 0 < left

/-- Message `x` is in the list, unchanged. -/
def Queued (c : Conf) (x : Handed) : Prop :=
  x.node ∈ c.shared.msgListHead ∧ c.shared.contents x.node = some x.msg

/-- No accepted message is ever lost, whatever the readers' buffers. -/
def NothingLost (c : Conf) : Prop :=
  ∀ i w, c.calls[i]? = some (.write w) → w.pc = .returned 0 →
    ∃ n, c.shared.appendedBy i = [⟨i, n, w.userBuf⟩] ∧
      (Queued c ⟨i, n, w.userBuf⟩ ∨ Served c ⟨i, n, w.userBuf⟩)

/-- Accepted messages are lost only by a failing `copy_to_user`, and a read
that returns an error for another reason has taken nothing. -/
structure LostOnlyByFault (c : Conf) : Prop where
  accepted : ∀ i w, c.calls[i]? = some (.write w) → w.pc = .returned 0 →
    ∃ n, c.shared.appendedBy i = [⟨i, n, w.userBuf⟩] ∧
      (Queued c ⟨i, n, w.userBuf⟩ ∨ Served c ⟨i, n, w.userBuf⟩ ∨
        Faulted c ⟨i, n, w.userBuf⟩)
  refused : ∀ j r code, c.calls[j]? = some (.read r) →
    r.pc = .returned code → code ≠ 0 →
    c.shared.removedBy j = [] ∨
      (code = -efault ∧ (∃ left, r.uncopied = some left ∧ 0 < left) ∧
        ∃ n t, c.shared.removedBy j = [⟨j, n, t⟩])

/-- Whoever removed a message serves it or has faulted on it. -/
theorem served_or_faulted {c : Conf} (h : Annotated Ordered CallOk c)
    {x y : Handed} (hy : y ∈ c.shared.removed) (hnode : y.node = x.node)
    (hmsg : y.msg = x.msg) : Served c x ∨ Faulted c x := by
  obtain ⟨r, hl, htook, hpc⟩ := mem_removed_call h hy
  have htook' : c.shared.removedBy y.call = [⟨y.call, x.node, x.msg⟩] := by
    rw [htook, ← hnode, ← hmsg]
  rw [hnode, hmsg] at hpc
  rcases hpc with hcopy | ⟨code, hans, hfreeMsg | hfreeNode | hret⟩
  · exact Or.inl ⟨y.call, r, hl, htook', Or.inl (Or.inl hcopy)⟩
  · exact Or.inl ⟨y.call, r, hl, htook', Or.inl (Or.inr ⟨code, Or.inl hfreeMsg⟩)⟩
  · exact Or.inl ⟨y.call, r, hl, htook',
      Or.inl (Or.inr ⟨code, Or.inr hfreeNode⟩)⟩
  · rcases hans with ⟨rfl, -, hbuf⟩ | ⟨rfl, left, hpos, hleft⟩
    · exact Or.inl ⟨y.call, r, hl, htook', Or.inr ⟨hret, hbuf⟩⟩
    · exact Or.inr ⟨y.call, r, left, hl, htook', hret, hleft, hpos⟩

theorem lostOnlyByFault {mvs : List Move} {c : Conf}
    (h : run step loaded mvs = some c) : LostOnlyByFault c := by
  obtain ⟨-, hok⟩ := reachable_ok h
  constructor
  · intro i w hl hpc
    have hw := (hok.call i _ hl).2
    rw [WriteOk, hpc] at hw
    rcases hw with ⟨-, hneg⟩ | ⟨-, n, happ⟩
    · omega
    · refine ⟨n, happ, ?_⟩
      have hmem : ⟨i, n, w.userBuf⟩ ∈ c.shared.appended := by
        have hin : (⟨i, n, w.userBuf⟩ : Handed) ∈ c.shared.appendedBy i := by
          rw [happ]
          exact List.mem_singleton_self _
        exact (List.mem_filter.mp hin).1
      rcases hok.shared.order.appended_cases hmem with ⟨y, hy, hn, hm⟩ | hq
      · exact Or.inr (served_or_faulted hok hy hn hm)
      · exact Or.inl hq
  · intro j r code hl hpc hcode
    have hr := (hok.call j _ hl).2
    rw [ReadOk, hpc] at hr
    rcases hr with ⟨hnone, -⟩ | ⟨n, t, htook, hans⟩
    · exact Or.inl hnone
    · rcases hans with ⟨hzero, -⟩ | ⟨hefault, left, hpos, hleft⟩
      · exact absurd hzero hcode
      · exact Or.inr ⟨hefault, ⟨left, hleft, hpos⟩, n, t, htook⟩

theorem lostOnlyByFault_exchangeRun :
    ∃ c, run step loaded exchangeRun = some c ∧ LostOnlyByFault c :=
  exchangeRun_ends.imp fun _ h => ⟨h.1, lostOnlyByFault h.1⟩

/-- Call 1 reads, and its buffer turns out to be bad in the last byte. -/
def faultRun : List Move :=
  List.flatten
    [ writeRun
    , [.issue ⟨ch4IoctlRead, Vector.replicate 132 0⟩]
    , [.advance 1 smooth, .advance 1 smooth]
    , [.advance 1 { smooth with left := 1 }]
    , [.advance 1 smooth, .advance 1 smooth] ]

/-- Where `faultRun` ends. -/
private theorem faultRun_end :
    (run step loaded faultRun).map (fun c =>
        (c.shared.msgListHead, c.calls.map Call.writeResult,
          c.calls.map Call.readResult)) =
      some ([], [some 0, none], [none, some (-efault)]) := by
  decide +kernel

/-- The message of `faultRun` was accepted and is gone. -/
theorem faultRun_loses :
    ∃ c, run step loaded faultRun = some c ∧ ¬ NothingLost c := by
  obtain ⟨c, hrun, hend⟩ := Option.map_eq_some_iff.mp faultRun_end
  simp only [Prod.mk.injEq] at hend
  obtain ⟨hlist, hwrites, hreads⟩ := hend
  refine ⟨c, hrun, fun h => ?_⟩
  obtain ⟨l, hl, hres⟩ : ∃ l, c.calls[0]? = some l ∧ l.writeResult = some 0 := by
    have h0 := congrArg (·[0]?) hwrites
    simpa using h0
  obtain ⟨w, rfl, hpc⟩ := Call.writeResult_eq_some hres
  obtain ⟨n, -, hq | ⟨j, r, hj, -, hserved⟩⟩ := h 0 w hl hpc
  · rw [Queued, hlist] at hq
    cases hq.1
  · have hread := congrArg (·[j]?) hreads
    simp only [List.getElem?_map, hj, Option.map_some] at hread
    match j with
    | 0 =>
        rw [hl] at hj
        cases hj
    | 1 =>
        obtain ⟨r', heq, hret⟩ := Call.readResult_eq_some
          (Option.some.inj hread)
        cases heq
        rcases hserved with (hcopy | ⟨code, hfree | hfree⟩) | ⟨hzero, -⟩
        · rw [hret] at hcopy
          cases hcopy
        · rw [hret] at hfree
          cases hfree
        · rw [hret] at hfree
          cases hfree
        · rw [hret] at hzero
          cases hzero
    | j + 2 => simp at hread

/-! ## How a read returns -/

/-- The three ways a blocking read may return: with a message, with the
negative result of its wait, or with `-EFAULT` for its own buffer. -/
def Justified (g : Ch4) (i : Nat) (r : ReadCall) (code : Int) : Prop :=
  (code = 0 ∧ ∃ n, g.removedBy i = [⟨i, n, r.userBuf⟩]) ∨
    (code = r.ret ∧ code < 0 ∧ g.removedBy i = []) ∨
      (code = -efault ∧ ∃ left, 0 < left ∧ r.uncopied = some left)

/-- Every read that has returned was justified in doing so. -/
def NoSpuriousReturn (c : Conf) : Prop :=
  ∀ i r code, c.calls[i]? = some (.read r) → r.pc = .returned code →
    Justified c.shared i r code

/-- A reader that is about to look at the list under the lock finds a message
there. -/
def FindsMessage (c : Conf) (mv : Move) : Prop :=
  ∀ i o r, mv = .advance i o → c.calls[i]? = some (.read r) →
    r.pc = .lock → c.shared.msgListHead ≠ []

/-- The call is about to look at the list under the lock. -/
def Call.atLock : Call → Bool
  | .read ⟨_, _, _, .lock⟩ => true
  | _ => false

theorem findsMessage_advance {c : Conf} {i : Nat} {o : Outcome} :
    (∀ l ∈ c.calls[i]?, l.atLock = true → c.shared.msgListHead ≠ []) ↔
      FindsMessage c (.advance i o) := by
  constructor
  · intro h j o' r hmv hl hpc
    cases hmv
    refine h _ hl ?_
    unfold Call.atLock
    rw [show r = ⟨r.userBuf, r.ret, r.uncopied, .lock⟩ by rw [← hpc]]
  · intro h l hl hlock
    unfold Call.atLock at hlock
    split at hlock
    case h_1 => exact h i o _ rfl hl rfl
    case h_2 => cases hlock

instance (c : Conf) : ∀ mv, Decidable (FindsMessage c mv)
  | .issue _ => isTrue fun _ _ _ h => nomatch h
  | .advance _ _ => decidable_of_iff _ findsMessage_advance

/-- The read returned because the list was empty again. -/
def ReadCall.TurnedAway (r : ReadCall) : Prop :=
  r.pc = .returned (-efault) ∧ r.uncopied = none ∧ r.ret = 0

instance (r : ReadCall) : Decidable r.TurnedAway :=
  inferInstanceAs (Decidable (_ ∧ _ ∧ _))

/-- The call is a read that was turned away. -/
def Call.turnedAway : Call → Bool
  | .read r => decide r.TurnedAway
  | .write _ => false
  | .invalid _ => false

/-- Being turned away is the only unjustified way to return. -/
theorem justified_or_turnedAway {g : Ch4} {i : Nat} {r : ReadCall}
    {code : Int} (h : ReadOk g i r) (hpc : r.pc = .returned code) :
    Justified g i r code ∨ r.TurnedAway := by
  rw [ReadOk, hpc] at h
  rcases h with ⟨hnone, hun, ⟨hret, hneg⟩ | ⟨rfl, hret⟩⟩ | ⟨n, t, htook, hans⟩
  · exact Or.inl (Or.inr (Or.inl ⟨hret, hneg, hnone⟩))
  · exact Or.inr ⟨hpc, hun, hret⟩
  · rcases hans with ⟨hzero, -, hbuf⟩ | ⟨hfault, left, hpos, hleft⟩
    · exact Or.inl (Or.inl ⟨hzero, n, hbuf ▸ htook⟩)
    · exact Or.inl (Or.inr (Or.inr ⟨hfault, left, hpos, hleft⟩))

theorem ReadCall.TurnedAway.not_justified {g : Ch4} {i : Nat} {r : ReadCall}
    (h : r.TurnedAway) : ¬ Justified g i r (-efault) := by
  obtain ⟨-, hun, hret⟩ := h
  rintro (⟨hzero, -⟩ | ⟨hcode, -, -⟩ | ⟨-, left, -, hleft⟩)
  · exact absurd hzero (by decide)
  · rw [hret] at hcode
    exact absurd hcode (by decide)
  · rw [hun] at hleft
    cases hleft

/-- A step turns a read away only if it finds the list empty. -/
theorem ReadStep.not_turnedAway {g g' : Ch4} {i : Nat} {r r' : ReadCall}
    (hok : ReadOk g i r) (hst : ReadStep g i r g' r')
    (hfinds : r.pc = .lock → g.msgListHead ≠ []) : ¬ r'.TurnedAway := by
  cases hst with
  | interrupted p q ret hpc hret =>
      rintro ⟨-, -, hzero⟩
      simp only at hzero
      omega
  | recheckEmpty hpc hempty => exact absurd hempty (hfinds hpc)
  | freeNode n code hpc =>
      rintro ⟨hcode, hun, -⟩
      rw [ReadOk, hpc] at hok
      obtain ⟨t, -, ⟨rfl, -, -⟩ | ⟨-, left, -, hleft⟩⟩ := hok
      · cases hcode
      · rw [hun] at hleft
        cases hleft
  | waitAgain => rintro ⟨hpc, -⟩; cases hpc
  | woken => rintro ⟨hpc, -⟩; cases hpc
  | take => rintro ⟨hpc, -⟩; cases hpc
  | copied => rintro ⟨hpc, -⟩; cases hpc
  | faulted => rintro ⟨hpc, -⟩; cases hpc
  | freeMsg => rintro ⟨hpc, -⟩; cases hpc

/-- The invariant of the runs in which every reader finds a message. -/
structure Patient (c : Conf) : Prop where
  account : NodeAccount c
  ok : Annotated Ordered CallOk c
  kept : ∀ (i : Nat) (r : ReadCall),
    c.calls[i]? = some (.read r) → ¬ r.TurnedAway

theorem Patient.noSpuriousReturn {c : Conf} (h : Patient c) :
    NoSpuriousReturn c := by
  intro i r code hl hpc
  rcases justified_or_turnedAway (h.ok.call i _ hl).2 hpc with hj | haway
  · exact hj
  · exact absurd haway (h.kept i r hl)

theorem Patient.step {c d : Conf} {mv : Move} (h : Patient c)
    (hfinds : FindsMessage c mv) (hst : Ch4Queue.step c mv = some d) :
    Patient d := by
  refine
    { account := nodeAccount_step c mv d h.account hst
      ok := Annotated.step calls_preserved h.account h.ok hst
      kept := ?_ }
  intro j r hj
  obtain ⟨k, -, rfl⟩ | ⟨i, o, l, g, l', rfl, hl, hb, rfl⟩ := step_cases hst
  · rcases lookup_append_cases hj with hold | ⟨-, hnew⟩
    · exact h.kept j r hold
    · -- a call that was just issued has not returned
      rintro ⟨hpc, -⟩
      unfold ch4Ioctl at hnew
      split at hnew
      · cases hnew
        cases hpc
      · split at hnew <;> cases hnew
  · rcases lookup_set_cases hl hj with ⟨rfl, rfl⟩ | ⟨-, hold⟩
    · obtain ⟨r₀, r', rfl, heq, hr⟩ | ⟨w, w', -, heq, -⟩ := ch4Step_cases hb
      · cases heq
        exact hr.not_turnedAway (h.ok.call _ _ hl).2
          (hfinds _ o r₀ rfl hl)
      · cases heq
    · exact h.kept j r hold

/-- A reader that finds the list empty again returns `-EFAULT` at once. -/
theorem not_noSpuriousReturn_of_empty {c d : Conf} {mv : Move}
    (h : Patient c) (hfinds : ¬ FindsMessage c mv)
    (hst : Ch4Queue.step c mv = some d) : ¬ NoSpuriousReturn d := by
  simp only [FindsMessage, not_forall, Decidable.not_not] at hfinds
  obtain ⟨i, o, r, rfl, hl, hpc, hempty⟩ := hfinds
  have hok := (h.ok.call i _ hl).2
  rw [ReadOk, hpc] at hok
  have hb : ch4Step c.shared i (.read r) o =
      some (c.shared, .read { r with pc := .returned (-efault) }) := by
    simp [ch4Step, ch4Read, hpc, hempty]
  rw [Ch4Queue.step, step_advance hl hb, Option.some.injEq] at hst
  subst hst
  intro hno
  have haway : ({ r with pc := .returned (-efault) } : ReadCall).TurnedAway :=
    ⟨rfl, hok.2.1, hok.2.2⟩
  exact haway.not_justified (hno i _ _ (lookup_set_self hl) rfl)

/-- In a run, all reads return only in the three justified ways if and only
if every reader that takes the lock after its wait finds a message. -/
theorem noSpuriousReturn_iff {mvs : List Move} {c : Conf}
    (h : run step loaded mvs = some c) :
    Throughout step NoSpuriousReturn loaded mvs ↔
      Along step FindsMessage loaded mvs := by
  have hstart : Patient loaded :=
    { account := loaded_nodeAccount
      ok := annotated_start ch4Init_ordered
      kept := fun i r hl => by simp [loaded, start] at hl }
  exact throughout_iff_along (I := Patient)
    (fun _ _ _ hI hC hst => hI.step hC hst)
    (fun _ hI => hI.noSpuriousReturn)
    (fun _ _ _ hI hC hst => not_noSpuriousReturn_of_empty hI hC hst)
    hstart h

theorem noSpuriousReturn_iff_exchangeRun :
    ∃ c, run step loaded exchangeRun = some c ∧
      Throughout step NoSpuriousReturn loaded exchangeRun :=
  exchangeRun_ends.imp fun _ h =>
    ⟨h.1, (noSpuriousReturn_iff h.1).mpr (by decide +kernel)⟩

/-- Calls 0 and 1 fall asleep on the empty list, call 2 writes one message and
wakes both; both see the message, call 0 takes it. -/
def raceRun : List Move :=
  [ .issue ⟨ch4IoctlRead, Vector.replicate 132 0⟩
  , .advance 0 smooth, .advance 0 smooth, .advance 0 smooth
  , .issue ⟨ch4IoctlRead, Vector.replicate 132 0⟩
  , .advance 1 smooth, .advance 1 smooth, .advance 1 smooth
  , .issue ⟨ch4IoctlWrite, hello⟩
  , .advance 2 smooth, .advance 2 smooth, .advance 2 smooth
  , .advance 2 smooth, .advance 2 smooth
  , .advance 0 smooth, .advance 0 smooth, .advance 0 smooth
  , .advance 1 smooth, .advance 1 smooth, .advance 1 smooth
  , .advance 0 smooth, .advance 1 smooth ]

/-- The reader that comes second in `raceRun` is told `-EFAULT`. -/
theorem raceRun_spurious :
    ∃ c, run step loaded raceRun = some c ∧ ¬ NoSpuriousReturn c := by
  have hend : (run step loaded raceRun).map (fun c =>
      c.calls.map Call.turnedAway) = some [false, true, false] := by
    decide +kernel
  obtain ⟨c, hrun, haway⟩ := Option.map_eq_some_iff.mp hend
  refine ⟨c, hrun, fun hno => ?_⟩
  have hone := congrArg (·[1]?) haway
  simp only [List.getElem?_map, List.getElem?_cons_succ,
    List.getElem?_cons_zero, Option.map_eq_some_iff] at hone
  obtain ⟨l, hl, htrue⟩ := hone
  cases l with
  | read r =>
      have h : r.TurnedAway := of_decide_eq_true htrue
      exact h.not_justified (hno 1 r _ hl h.1)
  | write w => cases htrue
  | invalid code => cases htrue

end EmbeddedSystem.Labs.Ch4Queue
