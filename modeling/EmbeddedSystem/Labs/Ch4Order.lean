import EmbeddedSystem.Labs.Ch4Account

/-!
# The order of the ch4 queue

The invariant behind every statement about the queue.  `Ordered` is its
shared part: what was appended is what was removed followed by what is in the
list, with the contents the buffers have now, and no two nodes share a
buffer.  `CallOk` is the assertion about each call: what it has appended and
removed so far is what its next statement presupposes.

That the contents of a queued buffer stay what they were when the node was
appended is the only non-local part.  A writer stores into the node it
prepares and into that node's buffer; by `NodeAccount` that node is neither
queued nor prepared by anybody else.
-/

set_option autoImplicit false

namespace EmbeddedSystem.Labs.Ch4Queue

open EmbeddedSystem.Verified
open EmbeddedSystem.Verified.Uaccess
open EmbeddedSystem.Verified.CallPool

/-! ## Buffers -/

/-- Every node with a buffer has an allocated one of its own. -/
structure OwnBuffers (g : Ch4) : Prop where
  lt : ∀ p b, g.msgPtr p = some b → b < g.msgs.fresh
  inj : ∀ p q b, g.msgPtr p = some b → g.msgPtr q = some b → p = q

theorem ch4Init_msgPtr (p : Nat) : ch4Init.msgPtr p = none := rfl

/-- A read changes no pointer and no contents. -/
theorem ReadStep.memory {g g' : Ch4} {i : Nat} {r r' : ReadCall}
    (h : ReadStep g i r g' r') (p : Nat) :
    g'.msgPtr p = g.msgPtr p ∧ g'.contents p = g.contents p ∧
      g'.msgs.fresh = g.msgs.fresh := by
  have hget : ∀ b, g'.msgs.get b = g.msgs.get b := by
    cases h <;> simp
  have hptr : g'.msgPtr p = g.msgPtr p := by
    cases h <;> simp [Ch4.msgPtr]
  refine ⟨hptr, ?_, by cases h <;> simp⟩
  unfold Ch4.contents
  rw [hptr]
  cases g.msgPtr p with
  | none => rfl
  | some b => exact hget b

/-- A write gives a node a pointer only by storing a newly allocated buffer
into it. -/
theorem WriteStep.msgPtr {g g' : Ch4} {i : Nat} {w w' : WriteCall}
    (h : WriteStep g i w g' w') {p b : Nat} (hb : g'.msgPtr p = some b) :
    g.msgPtr p = some b ∨
      (w.pc = .allocMsg p ∧ b = g.msgs.fresh ∧ b < g'.msgs.fresh) := by
  cases h with
  | allocNode hpc =>
      simp only [Ch4.msgPtr, Slab.get_kmalloc] at hb
      split at hb
      · cases hb
      · exact Or.inl hb
  | noMsg n hpc =>
      simp only [Ch4.msgPtr, Slab.get_put, Slab.get_touch] at hb
      split at hb
      · cases hg : g.nodes.get p <;> simp [hg] at hb
      · exact Or.inl hb
  | allocMsg n junk hpc =>
      simp only [Ch4.msgPtr, Slab.get_put, Slab.get_touch] at hb
      split at hb
      next heq =>
        subst heq
        cases hg : g.nodes.get n with
        | none => simp [hg] at hb
        | some node =>
            simp only [hg, Option.map_some, Option.bind_some,
              Option.some.injEq] at hb
            exact Or.inr ⟨hpc, hb.symm, by simp [← hb]⟩
      next => exact Or.inl hb
  | noNode hpc => exact Or.inl hb
  | copied n c hpc hptr => exact Or.inl (by simpa [Ch4.msgPtr] using hb)
  | faulted n c m hpc hptr => exact Or.inl (by simpa [Ch4.msgPtr] using hb)
  | freeMsg n c code hpc hptr => exact Or.inl (by simpa [Ch4.msgPtr] using hb)
  | freeNode n code hpc => exact Or.inl (by simpa [Ch4.msgPtr] using hb)
  | append n m hpc hcont => exact Or.inl (by simpa [Ch4.msgPtr] using hb)
  | wake hpc => exact Or.inl hb

theorem WriteStep.fresh_le {g g' : Ch4} {i : Nat} {w w' : WriteCall}
    (h : WriteStep g i w g' w') : g.msgs.fresh ≤ g'.msgs.fresh := by
  cases h <;> simp

theorem OwnBuffers.readStep {g g' : Ch4} {i : Nat} {r r' : ReadCall}
    (h : OwnBuffers g) (hst : ReadStep g i r g' r') : OwnBuffers g' := by
  constructor
  · intro p b hb
    obtain ⟨hptr, -, hfresh⟩ := hst.memory p
    rw [hfresh]
    exact h.lt p b (hptr ▸ hb)
  · intro p q b hp hq
    rw [(hst.memory p).1] at hp
    rw [(hst.memory q).1] at hq
    exact h.inj p q b hp hq

theorem OwnBuffers.writeStep {g g' : Ch4} {i : Nat} {w w' : WriteCall}
    (h : OwnBuffers g) (hst : WriteStep g i w g' w') : OwnBuffers g' := by
  constructor
  · intro p b hb
    rcases hst.msgPtr hb with hold | ⟨-, -, hlt⟩
    · exact Nat.lt_of_lt_of_le (h.lt p b hold) hst.fresh_le
    · exact hlt
  · intro p q b hp hq
    rcases hst.msgPtr hp with hoP | ⟨hpcP, hnewP, -⟩
    · rcases hst.msgPtr hq with hoQ | ⟨-, hnewQ, -⟩
      · exact h.inj p q b hoP hoQ
      · have hlt := h.lt p b hoP
        omega
    · rcases hst.msgPtr hq with hoQ | ⟨hpcQ, -, -⟩
      · have hlt := h.lt q b hoQ
        omega
      · rw [hpcP, WritePc.allocMsg.injEq] at hpcQ
        exact hpcQ

/-- A write leaves the contents of every node but the one it prepares
alone. -/
theorem WriteStep.contents {g g' : Ch4} {i : Nat} {w w' : WriteCall}
    (h : WriteStep g i w g' w') (hown : OwnBuffers g) {p : Nat} {m : MsgSt}
    (hne : w.pc.newNode ≠ some p) (hm : g.contents p = some m) :
    g'.contents p = some m := by
  obtain ⟨b, hb, hget⟩ := Option.bind_eq_some_iff.mp hm
  have hp : p < g.nodes.fresh := by
    obtain ⟨node, hnode, -⟩ := Option.bind_eq_some_iff.mp hb
    exact Slab.lt_fresh_of_get hnode
  have hstored : ∀ n c, g.msgPtr n = some c → w.pc.newNode = some n → c ≠ b := by
    rintro n c hc hn rfl
    exact hne (hn.trans (congrArg some (hown.inj n p c hc hb)))
  have hnode : g'.msgPtr p = some b := by
    cases h with
    | allocNode hpc =>
        simpa [Ch4.msgPtr, Slab.get_kmalloc_of_lt _ _ hp] using hb
    | noMsg n hpc =>
        have hnp : n ≠ p := by simpa [hpc, WritePc.newNode] using hne
        simpa [Ch4.msgPtr, Slab.get_put_ne _ _ hnp] using hb
    | allocMsg n junk hpc =>
        have hnp : n ≠ p := by simpa [hpc, WritePc.newNode] using hne
        simpa [Ch4.msgPtr, Slab.get_put_ne _ _ hnp] using hb
    | noNode hpc => exact hb
    | copied n c hpc hptr => simpa [Ch4.msgPtr] using hb
    | faulted n c m hpc hptr => simpa [Ch4.msgPtr] using hb
    | freeMsg n c code hpc hptr => simpa [Ch4.msgPtr] using hb
    | freeNode n code hpc => simpa [Ch4.msgPtr] using hb
    | append n m hpc hcont => simpa [Ch4.msgPtr] using hb
    | wake hpc => exact hb
  have hbuf : g'.msgs.get b = some m := by
    cases h with
    | allocMsg n junk hpc =>
        simpa [Slab.get_kmalloc_of_lt _ _ (hown.lt p b hb)] using hget
    | copied n c hpc hptr =>
        have hcb := hstored n c hptr (by simp [hpc, WritePc.newNode])
        simpa [Slab.get_put_ne _ _ hcb] using hget
    | faulted n c m hpc hptr =>
        have hcb := hstored n c hptr (by simp [hpc, WritePc.newNode])
        simpa [Slab.get_put_ne _ _ hcb] using hget
    | noNode hpc => exact hget
    | allocNode hpc => exact hget
    | noMsg n hpc => exact hget
    | freeMsg n c code hpc hptr => simpa using hget
    | freeNode n code hpc => exact hget
    | append n m hpc hcont => exact hget
    | wake hpc => exact hget
  exact Option.bind_eq_some_iff.mpr ⟨b, hnode, hbuf⟩

/-! ## The shared part of the invariant -/

def Handed.parcel (h : Handed) : Nat × Option MsgSt := (h.node, some h.msg)

/-- A node with what it contains now. -/
def Ch4.parcel (g : Ch4) (p : Nat) : Nat × Option MsgSt := (p, g.contents p)

/-- First in, first out, with the contents unchanged in between. -/
def Ch4.InOrder (g : Ch4) : Prop :=
  g.appended.map Handed.parcel =
    g.removed.map Handed.parcel ++ g.msgListHead.map g.parcel

/-- The shared part, for `n` calls. -/
structure Ordered (n : Nat) (g : Ch4) : Prop where
  order : g.InOrder
  buffers : OwnBuffers g
  appended_lt : ∀ h ∈ g.appended, h.call < n
  removed_lt : ∀ h ∈ g.removed, h.call < n

theorem ch4Init_ordered : Ordered 0 ch4Init := by
  refine ⟨rfl, ⟨?_, ?_⟩, ?_, ?_⟩
  · intro p b h
    rw [ch4Init_msgPtr] at h
    cases h
  · intro p q b h
    rw [ch4Init_msgPtr] at h
    cases h
  · intro h hmem
    cases hmem
  · intro h hmem
    cases hmem

/-- A queued node was appended with its present contents. -/
theorem Ch4.InOrder.queued {g : Ch4} (h : g.InOrder) {p : Nat}
    (hp : p ∈ g.msgListHead) :
    ∃ x ∈ g.appended, x.node = p ∧ g.contents p = some x.msg := by
  have hmem : g.parcel p ∈ g.appended.map Handed.parcel := by
    rw [h]
    exact List.mem_append_right _ (List.mem_map_of_mem hp)
  obtain ⟨x, hx, heq⟩ := List.mem_map.mp hmem
  obtain ⟨hnode, hmsg⟩ := Prod.mk.inj heq
  exact ⟨x, hx, hnode, hmsg.symm⟩

/-- The order survives a change of memory that leaves queued nodes alone. -/
theorem Ch4.InOrder.frame {g g' : Ch4} (h : g.InOrder)
    (happ : g'.appended = g.appended) (hrem : g'.removed = g.removed)
    (hlist : g'.msgListHead = g.msgListHead)
    (hcont : ∀ p ∈ g.msgListHead, g'.contents p = g.contents p) :
    g'.InOrder := by
  unfold Ch4.InOrder
  rw [happ, hrem, hlist, h]
  refine congrArg _ (List.map_congr_left fun p hp => ?_)
  exact congrArg (Prod.mk p) (hcont p hp).symm

/-! ## What a call has done so far -/

/-- The removals of call `i`. -/
def Ch4.removedBy (g : Ch4) (i : Nat) : List Handed :=
  g.removed.filter (·.call == i)

/-- The appends of call `i`. -/
def Ch4.appendedBy (g : Ch4) (i : Nat) : List Handed :=
  g.appended.filter (·.call == i)

/-- `copy_to_user` ran: the message was delivered and `code` is 0, or the copy
fell short and `code` is `-EFAULT`. -/
def ReadCall.Answered (r : ReadCall) (t : MsgSt) (code : Int) : Prop :=
  (code = 0 ∧ r.uncopied = some 0 ∧ r.userBuf = t) ∨
    (code = -efault ∧ ∃ left, 0 < left ∧ r.uncopied = some left)

/-- The ways a read returns without having touched the queue: a signal ended
its wait, or it found the list empty again under the lock. -/
def ReadCall.GaveUp (r : ReadCall) (code : Int) : Prop :=
  r.uncopied = none ∧
    ((code = r.ret ∧ code < 0) ∨ (code = -efault ∧ r.ret = 0))

/-- The assertion about `ch4_read` call `i`. -/
def ReadOk (g : Ch4) (i : Nat) (r : ReadCall) : Prop :=
  match r.pc with
  | .wait _ => g.removedBy i = [] ∧ r.uncopied = none
  | .lock => g.removedBy i = [] ∧ r.uncopied = none ∧ r.ret = 0
  | .copy n t => g.removedBy i = [⟨i, n, t⟩]
  | .freeMsg n code => ∃ t, g.removedBy i = [⟨i, n, t⟩] ∧ r.Answered t code
  | .freeNode n code => ∃ t, g.removedBy i = [⟨i, n, t⟩] ∧ r.Answered t code
  | .returned code =>
      (g.removedBy i = [] ∧ r.GaveUp code) ∨
        ∃ n t, g.removedBy i = [⟨i, n, t⟩] ∧ r.Answered t code

/-- The assertion about `ch4_write` call `i`. -/
def WriteOk (g : Ch4) (i : Nat) (w : WriteCall) : Prop :=
  match w.pc with
  | .allocNode => g.appendedBy i = []
  | .allocMsg _ => g.appendedBy i = []
  | .copy _ => g.appendedBy i = []
  | .freeMsg _ code => g.appendedBy i = [] ∧ code < 0
  | .freeNode _ code => g.appendedBy i = [] ∧ code < 0
  | .lock n => g.appendedBy i = [] ∧ g.contents n = some w.userBuf
  | .wake => ∃ n, g.appendedBy i = [⟨i, n, w.userBuf⟩]
  | .returned code =>
      (g.appendedBy i = [] ∧ code < 0) ∨
        (code = 0 ∧ ∃ n, g.appendedBy i = [⟨i, n, w.userBuf⟩])

/-- The assertion about call `i`. -/
def CallOk (g : Ch4) (i : Nat) : Call → Prop
  | .read r => g.appendedBy i = [] ∧ ReadOk g i r
  | .write w => g.removedBy i = [] ∧ WriteOk g i w
  | .invalid _ => g.appendedBy i = [] ∧ g.removedBy i = []

/-- Nothing is recorded for a number that was not issued yet. -/
theorem filter_call_eq_nil {hs : List Handed} {n : Nat}
    (h : ∀ x ∈ hs, x.call < n) : hs.filter (·.call == n) = [] := by
  rw [List.filter_eq_nil_iff]
  intro x hx
  simpa using Nat.ne_of_lt (h x hx)

theorem filter_append_self (hs : List Handed) (i n : Nat) (t : MsgSt) :
    (hs ++ [Handed.mk i n t]).filter (·.call == i) =
      hs.filter (·.call == i) ++ [⟨i, n, t⟩] := by
  simp

theorem filter_append_ne (hs : List Handed) {i j : Nat} (n : Nat) (t : MsgSt)
    (hij : i ≠ j) :
    (hs ++ [Handed.mk i n t]).filter (·.call == j) =
      hs.filter (·.call == j) := by
  simp [hij]

theorem callOk_ioctl {n : Nat} {g : Ch4} (h : Ordered n g) (k : Ioctl) :
    CallOk g n (ch4Ioctl k) := by
  have happ : g.appendedBy n = [] := filter_call_eq_nil h.appended_lt
  have hrem : g.removedBy n = [] := filter_call_eq_nil h.removed_lt
  unfold ch4Ioctl
  split
  · exact ⟨happ, hrem, rfl⟩
  · split
    · exact ⟨hrem, happ⟩
    · exact ⟨happ, hrem⟩

/-! ## Steps of `ch4_read` -/

/-- A read keeps the order: it takes at most the first node. -/
theorem ReadStep.ordered {n i : Nat} {g g' : Ch4} {r r' : ReadCall}
    (h : Ordered n g) (hi : i < n) (hst : ReadStep g i r g' r') :
    Ordered n g' := by
  have hcont : ∀ p, g'.contents p = g.contents p :=
    fun p => (hst.memory p).2.1
  have hbuf := h.buffers.readStep hst
  have hframe : g'.appended = g.appended → g'.removed = g.removed →
      g'.msgListHead = g.msgListHead → Ordered n g' := by
    intro happ hrem hlist
    exact
      { order := h.order.frame happ hrem hlist fun p _ => hcont p
        buffers := hbuf
        appended_lt := happ ▸ h.appended_lt
        removed_lt := hrem ▸ h.removed_lt }
  cases hst with
  | take m b rest t hpc hlist hptr hget =>
      have hm : g.contents m = some t :=
        Option.bind_eq_some_iff.mpr ⟨b, hptr, hget⟩
      refine
        { order := ?_
          buffers := hbuf
          appended_lt := h.appended_lt
          removed_lt := ?_ }
      · have hord := h.order
        unfold Ch4.InOrder at hord ⊢
        rw [hord, hlist, List.map_append, List.append_assoc]
        refine congrArg _ ?_
        simp only [List.map_cons, List.map_nil, List.cons_append,
          List.nil_append]
        congr 1
        · simp [Ch4.parcel, Handed.parcel, hm]
        · refine List.map_congr_left fun p _ => ?_
          exact congrArg (Prod.mk p) (hcont p).symm
      · intro x hx
        rcases List.mem_append.mp hx with hold | hnew
        · exact h.removed_lt x hold
        · rw [List.mem_singleton.mp hnew]
          exact hi
  | waitAgain => exact hframe rfl rfl rfl
  | interrupted => exact hframe rfl rfl rfl
  | woken => exact hframe rfl rfl rfl
  | recheckEmpty => exact hframe rfl rfl rfl
  | copied => exact hframe rfl rfl rfl
  | faulted => exact hframe rfl rfl rfl
  | freeMsg => exact hframe rfl rfl rfl
  | freeNode => exact hframe rfl rfl rfl

/-- A read establishes what its next statement presupposes. -/
theorem ReadStep.readOk {i : Nat} {g g' : Ch4} {r r' : ReadCall}
    (h : ReadOk g i r) (hst : ReadStep g i r g' r') : ReadOk g' i r' := by
  cases hst with
  | waitAgain p p' q hpc =>
      rw [ReadOk, hpc] at h
      exact h
  | interrupted p q ret hpc hret =>
      rw [ReadOk, hpc] at h
      exact Or.inl ⟨h.1, h.2, Or.inl ⟨rfl, hret⟩⟩
  | woken p q hpc =>
      rw [ReadOk, hpc] at h
      exact ⟨h.1, h.2, rfl⟩
  | recheckEmpty hpc hempty =>
      rw [ReadOk, hpc] at h
      exact Or.inl ⟨h.1, h.2.1, Or.inr ⟨rfl, h.2.2⟩⟩
  | take n b rest t hpc hlist hptr hget =>
      rw [ReadOk, hpc] at h
      show (g.removed ++ [Handed.mk i n t]).filter (·.call == i) = _
      rw [filter_append_self]
      exact congrArg (· ++ [_]) h.1
  | copied n t hpc =>
      rw [ReadOk, hpc] at h
      exact ⟨t, h, Or.inl ⟨rfl, rfl, rfl⟩⟩
  | faulted n t left hpc hleft =>
      rw [ReadOk, hpc] at h
      exact ⟨t, h, Or.inr ⟨rfl, left, hleft, rfl⟩⟩
  | freeMsg n b code hpc hptr =>
      rw [ReadOk, hpc] at h
      exact h
  | freeNode n code hpc =>
      rw [ReadOk, hpc] at h
      obtain ⟨t, htook, hans⟩ := h
      exact Or.inr ⟨n, t, htook, hans⟩

/-- What a read changes in the records of the calls: at most its own
removals. -/
theorem ReadStep.records {i j : Nat} {g g' : Ch4} {r r' : ReadCall}
    (hst : ReadStep g i r g' r') :
    g'.appended = g.appended ∧ (i ≠ j → g'.removedBy j = g.removedBy j) := by
  cases hst with
  | take n b rest t hpc hlist hptr hget =>
      exact ⟨rfl, fun hij => filter_append_ne _ _ _ hij⟩
  | _ => exact ⟨rfl, fun _ => rfl⟩

/-! ## Steps of `ch4_write` -/

/-- A write keeps the order: it adds at most its own node, at the end. -/
theorem WriteStep.ordered {n i : Nat} {g g' : Ch4} {w w' : WriteCall}
    (h : Ordered n g) (hi : i < n) (hst : WriteStep g i w g' w')
    (hfresh : ∀ m, w.pc.newNode = some m →
      m ∉ g.appended.map (·.node)) :
    Ordered n g' := by
  have hbuf := h.buffers.writeStep hst
  -- the node being prepared is not queued, so queued contents stay
  have hcont : ∀ p ∈ g.msgListHead, g'.contents p = g.contents p := by
    intro p hp
    obtain ⟨x, hx, hxp, hm⟩ := h.order.queued hp
    have hne : w.pc.newNode ≠ some p := by
      intro heq
      exact hfresh p heq (List.mem_map.mpr ⟨x, hx, hxp⟩)
    rw [hst.contents h.buffers hne hm, hm]
  have hframe : g'.appended = g.appended → g'.removed = g.removed →
      g'.msgListHead = g.msgListHead → Ordered n g' := by
    intro happ hrem hlist
    exact
      { order := h.order.frame happ hrem hlist hcont
        buffers := hbuf
        appended_lt := happ ▸ h.appended_lt
        removed_lt := hrem ▸ h.removed_lt }
  cases hst with
  | append p m hpc hm =>
      refine
        { order := ?_
          buffers := hbuf
          appended_lt := ?_
          removed_lt := h.removed_lt }
      · have hord := h.order
        unfold Ch4.InOrder at hord ⊢
        simp only [List.map_append, List.map_cons, List.map_nil]
        rw [hord, List.append_assoc]
        refine congrArg _ ?_
        congr 1
        · refine List.map_congr_left fun q hq => ?_
          exact congrArg (Prod.mk q) (hcont q hq).symm
        · have hm' : ({ g with
              nodes := g.nodes.touch p
              msgListHead := g.msgListHead ++ [p]
              appended := g.appended ++ [⟨i, p, m⟩] } : Ch4).contents p =
              some m := by
            simpa [Ch4.contents, Ch4.msgPtr] using hm
          simp [Ch4.parcel, Handed.parcel, hm']
      · intro x hx
        rcases List.mem_append.mp hx with hold | hnew
        · exact h.appended_lt x hold
        · rw [List.mem_singleton.mp hnew]
          exact hi
  | noNode => exact hframe rfl rfl rfl
  | allocNode => exact hframe rfl rfl rfl
  | noMsg => exact hframe rfl rfl rfl
  | allocMsg => exact hframe rfl rfl rfl
  | copied => exact hframe rfl rfl rfl
  | faulted => exact hframe rfl rfl rfl
  | freeMsg => exact hframe rfl rfl rfl
  | freeNode => exact hframe rfl rfl rfl
  | wake => exact hframe rfl rfl rfl

/-- A write establishes what its next statement presupposes. -/
theorem WriteStep.writeOk {i : Nat} {g g' : Ch4} {w w' : WriteCall}
    (hbuf : OwnBuffers g) (h : WriteOk g i w)
    (hst : WriteStep g i w g' w') : WriteOk g' i w' := by
  cases hst with
  | noNode hpc =>
      rw [WriteOk, hpc] at h
      exact Or.inl ⟨h, by decide⟩
  | allocNode hpc =>
      rw [WriteOk, hpc] at h
      exact h
  | noMsg n hpc =>
      rw [WriteOk, hpc] at h
      exact ⟨h, by decide⟩
  | allocMsg n junk hpc =>
      rw [WriteOk, hpc] at h
      exact h
  | copied n b hpc hptr =>
      rw [WriteOk, hpc] at h
      refine ⟨h, ?_⟩
      have hb := hbuf.lt n b hptr
      have hsome : ∃ old, g.msgs.get b = some old := by
        cases hget : g.msgs.get b with
        | none => exact absurd ((Slab.get_eq_none_iff _ _).mp hget) (by omega)
        | some old => exact ⟨old, rfl⟩
      obtain ⟨old, hget⟩ := hsome
      have hptr' : ({ g with
          nodes := g.nodes.touch n
          msgs := (g.msgs.touch b).put b w.userBuf } : Ch4).msgPtr n =
          some b := by
        simpa [Ch4.msgPtr] using hptr
      refine Option.bind_eq_some_iff.mpr ⟨b, hptr', ?_⟩
      simp [Slab.get_put, hget]
  | faulted n b m hpc hptr =>
      rw [WriteOk, hpc] at h
      exact ⟨h, by decide⟩
  | freeMsg n b code hpc hptr =>
      rw [WriteOk, hpc] at h
      exact h
  | freeNode n code hpc =>
      rw [WriteOk, hpc] at h
      exact Or.inl h
  | append n m hpc hm =>
      rw [WriteOk, hpc] at h
      obtain ⟨hnone, hcont⟩ := h
      rw [hm, Option.some.injEq] at hcont
      subst hcont
      refine ⟨n, ?_⟩
      show (g.appended ++ [Handed.mk i n w.userBuf]).filter (·.call == i) = _
      rw [filter_append_self]
      exact congrArg (· ++ [_]) hnone
  | wake hpc =>
      rw [WriteOk, hpc] at h
      exact Or.inr ⟨rfl, h⟩

/-- What a write changes in the records of the calls: at most its own
appends. -/
theorem WriteStep.records {i j : Nat} {g g' : Ch4} {w w' : WriteCall}
    (hst : WriteStep g i w g' w') :
    g'.removed = g.removed ∧ (i ≠ j → g'.appendedBy j = g.appendedBy j) := by
  cases hst with
  | append n m hpc hm => exact ⟨rfl, fun hij => filter_append_ne _ _ _ hij⟩
  | _ => exact ⟨rfl, fun _ => rfl⟩

/-! ## Steps of other calls -/

theorem ReadOk.frame {g g' : Ch4} {j : Nat} {r : ReadCall}
    (h : ReadOk g j r) (hrem : g'.removedBy j = g.removedBy j) :
    ReadOk g' j r := by
  unfold ReadOk at h ⊢
  rw [hrem]
  exact h

theorem WriteOk.frame {g g' : Ch4} {j : Nat} {w : WriteCall}
    (h : WriteOk g j w) (happ : g'.appendedBy j = g.appendedBy j)
    (hcont : ∀ n m, w.pc = .lock n → g.contents n = some m →
      g'.contents n = some m) : WriteOk g' j w := by
  unfold WriteOk at h ⊢
  rw [happ]
  split at h
  case h_6 n hpc => exact ⟨h.1, hcont n w.userBuf hpc h.2⟩
  all_goals exact h

/-! ## The invariant -/

theorem calls_preserved :
    Preserved ch4Ioctl ch4Step NodeAccount Ordered CallOk where
  issue := fun n g h =>
    { order := h.order
      buffers := h.buffers
      appended_lt := fun x hx => Nat.lt_succ_of_lt (h.appended_lt x hx)
      removed_lt := fun x hx => Nat.lt_succ_of_lt (h.removed_lt x hx) }
  enter := fun _ _ k h => callOk_ioctl h k
  own := by
    intro c i l o g' l' hacc hord hl hok hb
    have hi := lookup_lt hl
    obtain ⟨r, r', rfl, rfl, hr⟩ | ⟨w, w', rfl, rfl, hw⟩ := ch4Step_cases hb
    · refine ⟨hr.ordered hord hi, ?_, hr.readOk hok.2⟩
      show g'.appended.filter _ = []
      rw [(hr.records (j := i)).1]
      exact hok.1
    · refine ⟨hw.ordered hord hi fun m hm => hacc.not_appended hl hm, ?_,
        hw.writeOk hord.buffers hok.2⟩
      show g'.removed.filter _ = []
      rw [(hw.records (j := i)).1]
      exact hok.1
  other := by
    intro c i l o g' l' j m hacc hord hij hl _ hm hok hb
    have hrecords : g'.appendedBy j = c.shared.appendedBy j ∧
        g'.removedBy j = c.shared.removedBy j := by
      obtain ⟨r, r', -, -, hr⟩ | ⟨w, w', -, -, hw⟩ := ch4Step_cases hb
      · have hrec := hr.records (j := j)
        exact ⟨congrArg (List.filter _) hrec.1, hrec.2 hij⟩
      · have hrec := hw.records (j := j)
        exact ⟨hrec.2 hij, congrArg (List.filter _) hrec.1⟩
    cases m with
    | read r =>
        refine ⟨hrecords.1.trans hok.1, hok.2.frame hrecords.2⟩
    | invalid code =>
        exact ⟨hrecords.1.trans hok.1, hrecords.2.trans hok.2⟩
    | write v =>
        refine ⟨hrecords.2.trans hok.1, hok.2.frame hrecords.1 ?_⟩
        intro n t hpc ht
        obtain ⟨r, r', -, -, hr⟩ | ⟨w, w', rfl, -, hw⟩ := ch4Step_cases hb
        · rw [(hr.memory n).2.1]
          exact ht
        · -- another writer: it prepares another node
          refine hw.contents hord.buffers ?_ ht
          intro hn
          have hv : v.pc.newNode = some n := by rw [hpc]; rfl
          exact hacc.newNode_ne hij hl hm hn hv rfl

/-- The node account, the order and every call's assertion hold in every
state the loaded module can reach. -/
theorem reachable_ok {mvs : List Move} {c : Conf}
    (h : Transition.run step loaded mvs = some c) :
    NodeAccount c ∧ Annotated Ordered CallOk c :=
  Annotated.run calls_preserved nodeAccount_step loaded_nodeAccount
    (annotated_start ch4Init_ordered) h

end EmbeddedSystem.Labs.Ch4Queue
