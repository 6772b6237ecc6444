import EmbeddedSystem.Verified.CallPool
import EmbeddedSystem.Verified.Slab

/-!
# Who owns a node, and who owns its buffer

A driver keeps messages in nodes: a node points to a buffer, the nodes are
strung on a queue, and both are objects of the allocator.  Several calls work
on the queue at once.  `Hold` says what one call has in its hands, `Step`
lists what a call may do with it: obtain a node and a buffer for it, store
into the buffer, append the node, take the first one off, free the buffer,
free the node.

`Owned` is the ledger that all of these steps keep.  A live node is in the
queue once, or in the hands of one call, and never both; its buffer shares
that fate until it is freed, which happens before the node is freed.  Hence
nothing is freed twice and nothing is accessed after it was freed.

Which field of a node is its pointer is a parameter: `ptr`.
-/

set_option autoImplicit false

namespace EmbeddedSystem.Verified

open EmbeddedSystem.Verified.CallPool

/-- The nodes, their buffers and the queue of nodes. -/
structure NodeHeap (β α : Type) where
  nodes : Slab β
  bufs : Slab α
  queue : List Nat

namespace NodeHeap

variable {β α : Type} {ptr : β → Option Nat}

/-- The buffer that node `p` points to. -/
def buf (ptr : β → Option Nat) (h : NodeHeap β α) (p : Nat) : Option Nat :=
  (h.nodes.get p).bind ptr

/-- What the buffer of node `p` contains. -/
def contents (ptr : β → Option Nat) (h : NodeHeap β α) (p : Nat) : Option α :=
  (h.buf ptr p).bind h.bufs.get

/-- What a call has in its hands: a node without a buffer yet, a node with
its buffer, or a node whose buffer is gone. -/
inductive Hold where
  | nothing
  | bare (n : Nat)
  | full (n : Nat)
  | spent (n : Nat)
deriving DecidableEq, Repr

/-- The node in a call's hands. -/
def Hold.node : Hold → Option Nat
  | .nothing => none
  | .bare n => some n
  | .full n => some n
  | .spent n => some n

/-- What a call that holds `w` may do to the heap. -/
inductive Step (ptr : β → Option Nat) (h : NodeHeap β α) :
    Hold → NodeHeap β α → Hold → Prop where
  | idle (w : Hold) : Step ptr h w h w
  | allocNode (v : β) (hv : ptr v = none) :
      Step ptr h .nothing { h with nodes := h.nodes.kmalloc v }
        (.bare h.nodes.fresh)
  | noBuf (n : Nat) (v : β) (hv : ptr v = none) :
      Step ptr h (.bare n) { h with nodes := (h.nodes.touch n).put n v }
        (.spent n)
  | allocBuf (n : Nat) (v : β) (junk : α) (hv : ptr v = some h.bufs.fresh) :
      Step ptr h (.bare n)
        { h with
          nodes := (h.nodes.touch n).put n v
          bufs := h.bufs.kmalloc junk }
        (.full n)
  | store (n b : Nat) (m : α) (hb : h.buf ptr n = some b) :
      Step ptr h (.full n)
        { h with
          nodes := h.nodes.touch n
          bufs := (h.bufs.touch b).put b m }
        (.full n)
  | append (n : Nat) :
      Step ptr h (.full n)
        { h with nodes := h.nodes.touch n, queue := h.queue ++ [n] }
        .nothing
  | take (n b : Nat) (rest : List Nat) (hq : h.queue = n :: rest)
      (hb : h.buf ptr n = some b) :
      Step ptr h .nothing
        { h with
          nodes := h.nodes.touch n
          bufs := h.bufs.touch b
          queue := rest }
        (.full n)
  | freeBuf (n b : Nat) (hb : h.buf ptr n = some b) :
      Step ptr h (.full n)
        { h with nodes := h.nodes.touch n, bufs := h.bufs.kfree b }
        (.spent n)
  | freeNode (n : Nat) :
      Step ptr h (.spent n) { h with nodes := h.nodes.kfree n } .nothing

/-! ## Owners -/

/-- 1 if the call holds node `p`. -/
def holds (p : Nat) (w : Hold) : Nat := if w.node = some p then 1 else 0

/-- 1 if the call holds node `p` together with its buffer. -/
def holdsFull (p : Nat) (w : Hold) : Nat := if w = .full p then 1 else 0

/-- 1 if the call holds node `p`, which has no buffer yet. -/
def holdsBare (p : Nat) (w : Hold) : Nat := if w = .bare p then 1 else 0

/-- The ledger of the heap, with `hs` what the calls have in their hands. -/
structure Owned (ptr : β → Option Nat) (h : NodeHeap β α)
    (hs : List Hold) : Prop where
  /-- a live node is in the queue or in somebody's hands, once -/
  node : ∀ p, h.nodes.alive p = h.queue.count p + total (holds p) hs
  /-- so is a live buffer, by way of its node -/
  buf : ∀ p b, h.buf ptr p = some b →
    h.bufs.alive b = h.queue.count p + total (holdsFull p) hs
  /-- a node in the queue has a buffer, as has one that is held as full -/
  full : ∀ p, 0 < h.queue.count p + total (holdsFull p) hs →
    ∃ b, h.buf ptr p = some b
  bare : ∀ p, 0 < total (holdsBare p) hs → h.buf ptr p = none
  /-- every buffer has a node of its own -/
  home : ∀ b, b < h.bufs.fresh → ∃ p, h.buf ptr p = some b
  inj : ∀ p q b, h.buf ptr p = some b → h.buf ptr q = some b → p = q
  bound : ∀ p b, h.buf ptr p = some b → b < h.bufs.fresh
  nodes : h.nodes.Sound
  bufs : h.bufs.Sound

/-- The empty heap, whatever the calls are that hold nothing. -/
theorem owned_empty {hs : List Hold} (hnone : ∀ w ∈ hs, w = .nothing) :
    Owned ptr (⟨Slab.empty, Slab.empty, []⟩ : NodeHeap β α) hs := by
  have hzero : ∀ w : Hold → Nat, w .nothing = 0 → total w hs = 0 := by
    intro w hw
    apply total_eq_zero
    intro i v hv
    rw [hnone v (List.mem_of_getElem? hv)]
    exact hw
  have hbuf : ∀ p, buf ptr (⟨Slab.empty, Slab.empty, []⟩ : NodeHeap β α) p =
      none := fun _ => rfl
  refine
    { node := fun p => ?_
      buf := fun p b hb => ?_
      full := fun p hp => ?_
      bare := fun p _ => hbuf p
      home := fun b hb => absurd hb (Nat.not_lt_zero b)
      inj := fun p q b hb => ?_
      bound := fun p b hb => ?_
      nodes := Slab.sound_empty
      bufs := Slab.sound_empty }
  · rw [hzero (holds p) rfl]
    rfl
  · rw [hbuf] at hb
    cases hb
  · rw [hzero (holdsFull p) rfl] at hp
    exact absurd hp (Nat.lt_irrefl 0)
  · rw [hbuf] at hb
    cases hb
  · rw [hbuf] at hb
    cases hb

/-! ### What the ledger says about a node in somebody's hands -/

variable {h : NodeHeap β α} {hs : List Hold}

/-- A node in a call's hands is live and not in the queue, and nobody else
holds it. -/
theorem Owned.held (ho : Owned ptr h hs) {i n : Nat} {w : Hold}
    (hl : hs[i]? = some w) (hw : w.node = some n) :
    h.nodes.live n = true ∧ h.queue.count n = 0 ∧
      total (holds n) hs = 1 := by
  have hone : holds n w = 1 := if_pos hw
  have hle := le_total (holds n) hl
  have hnode := ho.node n
  have halive := h.nodes.alive_le_one n
  refine ⟨Slab.live_of_alive_pos (by omega), ?_, ?_⟩ <;> omega

/-- Two calls do not hold the same node. -/
theorem Owned.node_ne (ho : Owned ptr h hs) {i j n : Nat} {v w : Hold}
    (hij : i ≠ j) (hv : hs[i]? = some v) (hw : hs[j]? = some w)
    (hn : w.node = some n) : v.node ≠ some n := by
  intro hvn
  have hone : holds n v = 1 := if_pos hvn
  have hone' : holds n w = 1 := if_pos hn
  have hle := add_le_total (holds n) hij hv hw
  have htotal := (ho.held hw hn).2.2
  omega

/-- A node that is held as full has a live buffer. -/
theorem Owned.heldFull (ho : Owned ptr h hs) {i n : Nat}
    (hl : hs[i]? = some (.full n)) :
    ∃ b, h.buf ptr n = some b ∧ h.bufs.live b = true := by
  have hone : holdsFull n (.full n) = 1 := if_pos rfl
  have hle := le_total (holdsFull n) hl
  obtain ⟨b, hb⟩ := ho.full n (by omega)
  have hbuf := ho.buf n b hb
  exact ⟨b, hb, Slab.live_of_alive_pos (by omega)⟩

/-- A queued node is live and so is its buffer. -/
theorem Owned.queued (ho : Owned ptr h hs) {n : Nat} (hn : n ∈ h.queue) :
    h.nodes.live n = true ∧
      ∃ b, h.buf ptr n = some b ∧ h.bufs.live b = true := by
  have hpos : 0 < h.queue.count n := List.count_pos_iff.mpr hn
  have hnode := ho.node n
  obtain ⟨b, hb⟩ := ho.full n (by omega)
  have hbuf := ho.buf n b hb
  exact ⟨Slab.live_of_alive_pos (by omega), b, hb,
    Slab.live_of_alive_pos (by omega)⟩

/-- A live node is in the queue and nobody holds it, or it is not in the
queue and exactly one call holds it. -/
theorem Owned.owner_cases (ho : Owned ptr h hs) {p : Nat}
    (hp : h.nodes.live p = true) :
    (h.queue.count p = 1 ∧
        ∀ (i : Nat) (w : Hold), hs[i]? = some w → w.node ≠ some p) ∨
      (p ∉ h.queue ∧
        ∃ (i : Nat) (w : Hold), hs[i]? = some w ∧ w.node = some p ∧
          ∀ (j : Nat) (v : Hold), hs[j]? = some v → v.node = some p →
            j = i) := by
  have hone : h.nodes.alive p = 1 := if_pos hp
  have hnode := ho.node p
  have hweight : ∀ w : Hold, w.node = some p → holds p w = 1 :=
    fun w hw => if_pos hw
  rcases Nat.eq_zero_or_pos (h.queue.count p) with hz | hpos
  · right
    refine ⟨List.count_eq_zero.mp hz, ?_⟩
    have hsum : 0 < total (holds p) hs := by omega
    obtain ⟨i, w, hi, hw⟩ := exists_of_total_pos (holds p) hsum
    have hwp : w.node = some p := by
      by_cases hwp : w.node = some p
      · exact hwp
      · rw [holds, if_neg hwp] at hw
        exact absurd hw (Nat.lt_irrefl 0)
    refine ⟨i, w, hi, hwp, fun j v hj hv => ?_⟩
    by_cases hji : j = i
    · exact hji
    · have hle := add_le_total (holds p) hji hj hi
      rw [hweight v hv, hweight w hwp] at hle
      omega
  · left
    refine ⟨by omega, fun i w hi hw => ?_⟩
    have hle := le_total (holds p) hi
    rw [hweight w hw] at hle
    omega

/-! ## The steps keep the ledger -/

/-- A node that was never allocated points nowhere. -/
theorem buf_fresh (h : NodeHeap β α) : h.buf ptr h.nodes.fresh = none := by
  unfold buf
  rw [(Slab.get_eq_none_iff h.nodes h.nodes.fresh).mpr (Nat.le_refl _)]
  rfl

/-- A new node without a buffer changes no pointer. -/
theorem buf_kmalloc (h : NodeHeap β α) {v : β} (hv : ptr v = none) (p : Nat) :
    buf ptr { h with nodes := h.nodes.kmalloc v } p = h.buf ptr p := by
  by_cases hp : p = h.nodes.fresh
  · subst hp
    rw [buf_fresh]
    simp [buf, Slab.get_kmalloc, hv]
  · simp [buf, Slab.get_kmalloc, hp]

/-- Storing a node redirects its pointer and no other. -/
theorem buf_put (ptr : β → Option Nat) (h : NodeHeap β α) (s : Slab α)
    {n : Nat} (v : β) (hn : h.nodes.live n = true) (p : Nat) :
    buf ptr { h with nodes := (h.nodes.touch n).put n v, bufs := s } p =
      if n = p then ptr v else h.buf ptr p := by
  by_cases hp : n = p
  · subst hp
    have hlt := Slab.lt_fresh_of_live hn
    cases hget : h.nodes.get n with
    | none =>
        have hge := (Slab.get_eq_none_iff h.nodes n).mp hget
        omega
    | some node => simp [buf, Slab.get_put, hget]
  · simp [buf, Slab.get_put, hp]

/-- A step that moves no pointer keeps the ledger if it keeps the numbers. -/
theorem Owned.frame (ho : Owned ptr h hs) {h' : NodeHeap β α}
    {hs' : List Hold} (hbuf : ∀ p, h'.buf ptr p = h.buf ptr p)
    (hfresh : h'.bufs.fresh = h.bufs.fresh)
    (hnode : ∀ p, h'.nodes.alive p =
      h'.queue.count p + total (holds p) hs')
    (halive : ∀ p b, h.buf ptr p = some b → h'.bufs.alive b =
      h'.queue.count p + total (holdsFull p) hs')
    (hfull : ∀ p, h'.queue.count p + total (holdsFull p) hs' ≤
      h.queue.count p + total (holdsFull p) hs)
    (hbare : ∀ p, 0 < total (holdsBare p) hs' → h.buf ptr p = none)
    (hnodes : h'.nodes.Sound) (hbufs : h'.bufs.Sound) :
    Owned ptr h' hs' where
  node := hnode
  buf p b hb := halive p b (hbuf p ▸ hb)
  full p hp := by
    rw [hbuf]
    exact ho.full p (Nat.lt_of_lt_of_le hp (hfull p))
  bare p hp := (hbuf p).trans (hbare p hp)
  home b hb := by
    obtain ⟨p, hp⟩ := ho.home b (hfresh ▸ hb)
    exact ⟨p, (hbuf p).trans hp⟩
  inj p q b hp hq := ho.inj p q b (hbuf p ▸ hp) (hbuf q ▸ hq)
  bound p b hb := hfresh ▸ ho.bound p b (hbuf p ▸ hb)
  nodes := hnodes
  bufs := hbufs

section Steps

variable {i : Nat}

theorem Owned.allocNode (ho : Owned ptr h hs) (hl : hs[i]? = some .nothing)
    {v : β} (hv : ptr v = none) :
    Owned ptr { h with nodes := h.nodes.kmalloc v }
      (hs.set i (.bare h.nodes.fresh)) := by
  refine ho.frame (buf_kmalloc h hv) rfl (fun p => ?_) (fun p b hb => ?_)
    (fun p => ?_) (fun p hp => ?_) (ho.nodes.kmalloc v) ho.bufs
  · have hset := total_set (holds p) (.bare h.nodes.fresh) hl
    have hnode := ho.node p
    simp only [holds, Hold.node, Option.some.injEq, reduceCtorEq,
      if_false] at hset hnode ⊢
    rw [Slab.alive_kmalloc]
    omega
  · have hset := total_set (holdsFull p) (.bare h.nodes.fresh) hl
    have hbuf := ho.buf p b hb
    simp only [holdsFull, reduceCtorEq, if_false] at hset hbuf ⊢
    omega
  · have hset := total_set (holdsFull p) (.bare h.nodes.fresh) hl
    simp only [holdsFull, reduceCtorEq, if_false] at hset ⊢
    omega
  · by_cases hfresh : h.nodes.fresh = p
    · exact hfresh ▸ buf_fresh h
    · have hset := total_set (holdsBare p) (.bare h.nodes.fresh) hl
      have hbare := ho.bare p
      simp only [holdsBare, Hold.bare.injEq, hfresh, reduceCtorEq,
        if_false] at hset hp hbare
      apply hbare
      omega

/-- A node that is held as bare has no buffer, and nobody holds it
otherwise. -/
theorem Owned.heldBare (ho : Owned ptr h hs) {n : Nat}
    (hl : hs[i]? = some (.bare n)) :
    h.buf ptr n = none ∧ total (holdsBare n) hs = 1 ∧
      total (holdsFull n) hs = 0 := by
  have hone : holdsBare n (.bare n) = 1 := if_pos rfl
  have hle := le_total (holdsBare n) hl
  have hbuf : h.buf ptr n = none := ho.bare n (by omega)
  have hsub : total (holdsBare n) hs ≤ total (holds n) hs := by
    apply total_le_total
    intro w
    cases w <;> simp [holdsBare, holds, Hold.node]
  have hheld := (ho.held hl rfl).2.2
  refine ⟨hbuf, by omega, ?_⟩
  rcases Nat.eq_zero_or_pos (total (holdsFull n) hs) with hz | hpos
  · exact hz
  · obtain ⟨b, hb⟩ := ho.full n (by omega)
    rw [hbuf] at hb
    cases hb

theorem Owned.noBuf (ho : Owned ptr h hs) {n : Nat}
    (hl : hs[i]? = some (.bare n)) {v : β} (hv : ptr v = none) :
    Owned ptr { h with nodes := (h.nodes.touch n).put n v }
      (hs.set i (.spent n)) := by
  have hlive := (ho.held hl rfl).1
  have hnone := (ho.heldBare hl).1
  refine ho.frame (fun p => ?_) rfl (fun p => ?_) (fun p b hb => ?_)
    (fun p => ?_) (fun p hp => ?_) ?_ ho.bufs
  · have hput := buf_put ptr h h.bufs v hlive p
    by_cases hp : n = p
    · subst hp
      rw [if_pos rfl, hv] at hput
      rw [hnone]
      exact hput
    · rw [if_neg hp] at hput
      exact hput
  · have hset := total_set (holds p) (.spent n) hl
    have hnode := ho.node p
    simp only [holds, Hold.node, Option.some.injEq, Slab.alive_put,
      Slab.alive_touch] at hset hnode ⊢
    omega
  · have hset := total_set (holdsFull p) (.spent n) hl
    have hbuf := ho.buf p b hb
    simp only [holdsFull, reduceCtorEq, if_false] at hset hbuf ⊢
    omega
  · have hset := total_set (holdsFull p) (.spent n) hl
    simp only [holdsFull, reduceCtorEq, if_false] at hset ⊢
    omega
  · have hset := total_set (holdsBare p) (.spent n) hl
    apply ho.bare p
    simp only [holdsBare, reduceCtorEq, if_false] at hset hp ⊢
    omega
  · show Slab.Sound ((h.nodes.touch n).put n v)
    rw [Slab.touch_of_live hlive]
    exact ho.nodes.put n v

/-- The pointers after a node that had no buffer was given a new one. -/
theorem Owned.pointers_allocBuf (ho : Owned ptr h hs) {n : Nat}
    (hnone : h.buf ptr n = none) {f : Nat → Option Nat}
    (hf : ∀ p, f p = if n = p then some h.bufs.fresh else h.buf ptr p) :
    (∀ b, b < h.bufs.fresh + 1 → ∃ p, f p = some b) ∧
      (∀ p q b, f p = some b → f q = some b → p = q) ∧
      ∀ p b, f p = some b → b < h.bufs.fresh + 1 := by
  have hnew : f n = some h.bufs.fresh := (hf n).trans (if_pos rfl)
  have hold : ∀ p, n ≠ p → f p = h.buf ptr p :=
    fun p hp => (hf p).trans (if_neg hp)
  have hbound : ∀ p b, n ≠ p → f p = some b → b < h.bufs.fresh :=
    fun p b hp hb => ho.bound p b ((hold p hp).symm.trans hb)
  have hself : ∀ b, f n = some b → b = h.bufs.fresh := by
    intro b hb
    rw [hnew, Option.some.injEq] at hb
    exact hb.symm
  refine ⟨fun b hb => ?_, fun p q b hp hq => ?_, fun p b hb => ?_⟩
  · by_cases hfresh : b = h.bufs.fresh
    · exact ⟨n, hfresh ▸ hnew⟩
    · obtain ⟨p, hp⟩ := ho.home b (by omega)
      have hnp : n ≠ p := by
        rintro rfl
        rw [hnone] at hp
        cases hp
      exact ⟨p, (hold p hnp).trans hp⟩
  · by_cases hnp : n = p <;> by_cases hnq : n = q
    · exact hnp.symm.trans hnq
    · have hb := hself b (hnp ▸ hp)
      have hlt := hbound q b hnq hq
      omega
    · have hb := hself b (hnq ▸ hq)
      have hlt := hbound p b hnp hp
      omega
    · exact ho.inj p q b ((hold p hnp).symm.trans hp)
        ((hold q hnq).symm.trans hq)
  · by_cases hnp : n = p
    · have hb := hself b (hnp ▸ hb)
      omega
    · have hlt := hbound p b hnp hb
      omega

theorem Owned.allocBuf (ho : Owned ptr h hs) {n : Nat}
    (hl : hs[i]? = some (.bare n)) {v : β} {junk : α}
    (hv : ptr v = some h.bufs.fresh) :
    Owned ptr
      { h with
        nodes := (h.nodes.touch n).put n v
        bufs := h.bufs.kmalloc junk }
      (hs.set i (.full n)) := by
  obtain ⟨hlive, hqueue, -⟩ := ho.held hl rfl
  obtain ⟨hnone, hbare, hfull⟩ := ho.heldBare hl
  have hput := buf_put ptr h (h.bufs.kmalloc junk) v hlive
  rw [hv] at hput
  obtain ⟨hhome, hinj, hbound⟩ := ho.pointers_allocBuf hnone hput
  have hF := fun p => total_set (holdsFull p) (.full n) hl
  have hB := fun p => total_set (holdsBare p) (.full n) hl
  simp only [holdsFull, holdsBare, Hold.full.injEq, Hold.bare.injEq,
    reduceCtorEq, if_false, Nat.add_zero] at hF hB
  constructor
  case node =>
    intro p
    have hset := total_set (holds p) (.full n) hl
    have hnode := ho.node p
    simp only [holds, Hold.node, Option.some.injEq, Slab.alive_put,
      Slab.alive_touch] at hset hnode ⊢
    omega
  case buf =>
    intro p b hb
    rw [hput] at hb
    have hset := hF p
    show (h.bufs.kmalloc junk).alive b = _
    rw [Slab.alive_kmalloc]
    by_cases hp : n = p
    · subst hp
      rw [if_pos rfl, Option.some.injEq] at hb
      subst hb
      have hdead : h.bufs.alive h.bufs.fresh = 0 := by
        simp [Slab.alive, Slab.live_fresh]
      simp only [if_true] at hset hfull ⊢
      omega
    · rw [if_neg hp] at hb
      have hbuf := ho.buf p b hb
      have hne : h.bufs.fresh ≠ b := Nat.ne_of_gt (ho.bound p b hb)
      simp only [hp, hne, if_false] at hset hbuf ⊢
      omega
  case full =>
    intro p hp
    rw [hput]
    by_cases hnp : n = p
    · rw [if_pos hnp]
      exact ⟨_, rfl⟩
    · rw [if_neg hnp]
      have hset := hF p
      apply ho.full p
      simp only [hnp, if_false] at hset hp ⊢
      omega
  case bare =>
    intro p hp
    have hset := hB p
    rw [hput]
    by_cases hnp : n = p
    · subst hnp
      simp only [if_true] at hset hp hbare
      omega
    · rw [if_neg hnp]
      apply ho.bare p
      simp only [hnp, if_false] at hset hp ⊢
      omega
  case home =>
    intro b hb
    have hlt : b < h.bufs.fresh + 1 := by simpa using hb
    exact hhome b hlt
  case inj => exact hinj
  case bound =>
    intro p b hb
    show b < (h.bufs.kmalloc junk).fresh
    rw [Slab.fresh_kmalloc]
    exact hbound p b hb
  case nodes =>
    show Slab.Sound ((h.nodes.touch n).put n v)
    rw [Slab.touch_of_live hlive]
    exact ho.nodes.put n v
  case bufs => exact ho.bufs.kmalloc junk

theorem Owned.store (ho : Owned ptr h hs) {n b : Nat}
    (hl : hs[i]? = some (.full n)) (hb : h.buf ptr n = some b) (m : α) :
    Owned ptr
      { h with
        nodes := h.nodes.touch n
        bufs := (h.bufs.touch b).put b m }
      (hs.set i (.full n)) := by
  have hlive := (ho.held hl rfl).1
  obtain ⟨b', hb', hblive⟩ := ho.heldFull hl
  rw [hb, Option.some.injEq] at hb'
  subst hb'
  refine ho.frame (fun p => ?_) ?_ (fun p => ?_)
    (fun p c hc => ?_) (fun p => ?_) (fun p hp => ?_) ?_ ?_
  · simp [NodeHeap.buf]
  · simp
  · have hset := total_set (holds p) (.full n) hl
    have hnode := ho.node p
    simp only [Slab.alive_touch] at hnode ⊢
    omega
  · have hset := total_set (holdsFull p) (.full n) hl
    have hbuf := ho.buf p c hc
    simp only [Slab.alive_put, Slab.alive_touch] at hbuf ⊢
    omega
  · have hset := total_set (holdsFull p) (.full n) hl
    show h.queue.count p + _ ≤ _
    omega
  · have hset := total_set (holdsBare p) (.full n) hl
    apply ho.bare p
    omega
  · show Slab.Sound (h.nodes.touch n)
    rw [Slab.touch_of_live hlive]
    exact ho.nodes
  · show Slab.Sound ((h.bufs.touch b).put b m)
    rw [Slab.touch_of_live hblive]
    exact ho.bufs.put b m

theorem Owned.append (ho : Owned ptr h hs) {n : Nat}
    (hl : hs[i]? = some (.full n)) :
    Owned ptr { h with nodes := h.nodes.touch n, queue := h.queue ++ [n] }
      (hs.set i .nothing) := by
  have hlive := (ho.held hl rfl).1
  have hcount : ∀ p, (h.queue ++ [n]).count p =
      h.queue.count p + if n = p then 1 else 0 := by
    intro p
    simp [List.count_append, List.count_singleton]
  refine ho.frame (fun p => ?_) rfl (fun p => ?_)
    (fun p c hc => ?_) (fun p => ?_) (fun p hp => ?_) ?_ ho.bufs
  · simp [NodeHeap.buf]
  · have hset := total_set (holds p) .nothing hl
    have hnode := ho.node p
    simp only [holds, Hold.node, Option.some.injEq, reduceCtorEq, if_false,
      Slab.alive_touch, hcount] at hset hnode ⊢
    omega
  · have hset := total_set (holdsFull p) .nothing hl
    have hbuf := ho.buf p c hc
    simp only [holdsFull, Hold.full.injEq, reduceCtorEq, if_false,
      hcount] at hset hbuf ⊢
    omega
  · have hset := total_set (holdsFull p) .nothing hl
    simp only [holdsFull, Hold.full.injEq, reduceCtorEq, if_false,
      hcount] at hset ⊢
    omega
  · have hset := total_set (holdsBare p) .nothing hl
    apply ho.bare p
    simp only [holdsBare, reduceCtorEq, if_false] at hset hp ⊢
    omega
  · show Slab.Sound (h.nodes.touch n)
    rw [Slab.touch_of_live hlive]
    exact ho.nodes

theorem Owned.take (ho : Owned ptr h hs) {n b : Nat} {rest : List Nat}
    (hl : hs[i]? = some .nothing) (hq : h.queue = n :: rest)
    (hb : h.buf ptr n = some b) :
    Owned ptr
      { h with
        nodes := h.nodes.touch n
        bufs := h.bufs.touch b
        queue := rest }
      (hs.set i (.full n)) := by
  obtain ⟨hlive, b', hb', hblive⟩ := ho.queued (n := n)
    (by rw [hq]; exact List.mem_cons_self)
  rw [hb, Option.some.injEq] at hb'
  subst hb'
  have hcount : ∀ p, h.queue.count p =
      rest.count p + if n = p then 1 else 0 := by
    intro p
    rw [hq]
    simp [List.count_cons]
  refine ho.frame (fun p => ?_) ?_ (fun p => ?_)
    (fun p c hc => ?_) (fun p => ?_) (fun p hp => ?_) ?_ ?_
  · simp [NodeHeap.buf]
  · simp
  · have hset := total_set (holds p) (.full n) hl
    have hnode := ho.node p
    simp only [holds, Hold.node, Option.some.injEq, reduceCtorEq, if_false,
      Slab.alive_touch, hcount] at hset hnode ⊢
    omega
  · have hset := total_set (holdsFull p) (.full n) hl
    have hbuf := ho.buf p c hc
    simp only [holdsFull, Hold.full.injEq, reduceCtorEq, if_false,
      Slab.alive_touch, hcount] at hset hbuf ⊢
    omega
  · have hset := total_set (holdsFull p) (.full n) hl
    simp only [holdsFull, Hold.full.injEq, reduceCtorEq, if_false,
      hcount] at hset ⊢
    omega
  · have hset := total_set (holdsBare p) (.full n) hl
    apply ho.bare p
    simp only [holdsBare, reduceCtorEq, if_false] at hset hp ⊢
    omega
  · show Slab.Sound (h.nodes.touch n)
    rw [Slab.touch_of_live hlive]
    exact ho.nodes
  · show Slab.Sound (h.bufs.touch b)
    rw [Slab.touch_of_live hblive]
    exact ho.bufs

theorem Owned.freeBuf (ho : Owned ptr h hs) {n b : Nat}
    (hl : hs[i]? = some (.full n)) (hb : h.buf ptr n = some b) :
    Owned ptr { h with nodes := h.nodes.touch n, bufs := h.bufs.kfree b }
      (hs.set i (.spent n)) := by
  have hlive := (ho.held hl rfl).1
  obtain ⟨b', hb', hblive⟩ := ho.heldFull hl
  rw [hb, Option.some.injEq] at hb'
  subst hb'
  refine ho.frame (fun p => ?_) ?_ (fun p => ?_)
    (fun p c hc => ?_) (fun p => ?_) (fun p hp => ?_) ?_
    (ho.bufs.kfree hblive)
  · simp [NodeHeap.buf]
  · simp
  · have hset := total_set (holds p) (.spent n) hl
    have hnode := ho.node p
    simp only [holds, Hold.node, Option.some.injEq,
      Slab.alive_touch] at hset hnode ⊢
    omega
  · have hset := total_set (holdsFull p) (.spent n) hl
    have hbuf := ho.buf p c hc
    have hfree := Slab.alive_kfree hblive c
    -- the buffer belongs to this node and to no other
    have hiff : (if b = c then 1 else 0) = if n = p then 1 else 0 := by
      by_cases hnp : n = p
      · subst hnp
        rw [hb, Option.some.injEq] at hc
        rw [if_pos hc, if_pos rfl]
      · have hbc : b ≠ c := by
          rintro rfl
          exact hnp (ho.inj n p b hb hc)
        rw [if_neg hbc, if_neg hnp]
    simp only [holdsFull, Hold.full.injEq, reduceCtorEq,
      if_false] at hset hbuf ⊢
    omega
  · have hset := total_set (holdsFull p) (.spent n) hl
    simp only [holdsFull, Hold.full.injEq, reduceCtorEq, if_false] at hset ⊢
    omega
  · have hset := total_set (holdsBare p) (.spent n) hl
    apply ho.bare p
    simp only [holdsBare, reduceCtorEq, if_false] at hset hp ⊢
    omega
  · show Slab.Sound (h.nodes.touch n)
    rw [Slab.touch_of_live hlive]
    exact ho.nodes

theorem Owned.freeNode (ho : Owned ptr h hs) {n : Nat}
    (hl : hs[i]? = some (.spent n)) :
    Owned ptr { h with nodes := h.nodes.kfree n } (hs.set i .nothing) := by
  have hlive := (ho.held hl rfl).1
  refine ho.frame (fun p => ?_) rfl (fun p => ?_)
    (fun p c hc => ?_) (fun p => ?_) (fun p hp => ?_)
    (ho.nodes.kfree hlive) ho.bufs
  · simp [NodeHeap.buf]
  · have hset := total_set (holds p) .nothing hl
    have hnode := ho.node p
    have hfree := Slab.alive_kfree hlive p
    simp only [holds, Hold.node, Option.some.injEq, reduceCtorEq,
      if_false] at hset hnode ⊢
    omega
  · have hset := total_set (holdsFull p) .nothing hl
    have hbuf := ho.buf p c hc
    simp only [holdsFull, reduceCtorEq, if_false] at hset hbuf ⊢
    omega
  · have hset := total_set (holdsFull p) .nothing hl
    simp only [holdsFull, reduceCtorEq, if_false] at hset ⊢
    omega
  · have hset := total_set (holdsBare p) .nothing hl
    apply ho.bare p
    simp only [holdsBare, reduceCtorEq, if_false] at hset hp ⊢
    omega

end Steps

/-- One call takes one step. -/
theorem Owned.step (ho : Owned ptr h hs) {i : Nat} {w w' : Hold}
    {h' : NodeHeap β α} (hl : hs[i]? = some w)
    (hst : Step ptr h w h' w') : Owned ptr h' (hs.set i w') := by
  cases hst with
  | idle w =>
      have hset : hs.set i w = hs := by
        apply List.ext_getElem?
        intro j
        by_cases hij : i = j
        · rw [← hij, lookup_set_self hl, hl]
        · rw [List.getElem?_set_ne hij]
      rw [hset]
      exact ho
  | allocNode v hv => exact ho.allocNode hl hv
  | noBuf n v hv => exact ho.noBuf hl hv
  | allocBuf n v junk hv => exact ho.allocBuf hl hv
  | store n b m hb => exact ho.store hl hb m
  | append n => exact ho.append hl
  | take n b rest hq hb => exact ho.take hl hq hb
  | freeBuf n b hb => exact ho.freeBuf hl hb
  | freeNode n => exact ho.freeNode hl

/-! ## Contents -/

/-- A step of a call changes the contents of no node but the one it holds. -/
theorem Owned.contents_step (ho : Owned ptr h hs) {i p : Nat} {w w' : Hold}
    {h' : NodeHeap β α} {m : α} (hl : hs[i]? = some w)
    (hst : Step ptr h w h' w') (hp : w.node ≠ some p)
    (hm : h.contents ptr p = some m) : h'.contents ptr p = some m := by
  obtain ⟨b, hb, hget⟩ := Option.bind_eq_some_iff.mp hm
  have hsame : ∀ {k : NodeHeap β α}, k.buf ptr p = some b →
      k.bufs.get b = some m → k.contents ptr p = some m := by
    intro k hkb hkm
    rw [contents, hkb]
    exact hkm
  cases hst with
  | idle => exact hm
  | allocNode v hv => exact hsame ((buf_kmalloc h hv p).trans hb) hget
  | noBuf n v hv =>
      have hne : n ≠ p := fun heq => hp (congrArg some heq)
      refine hsame ?_ hget
      rw [buf_put ptr h h.bufs v (ho.held hl rfl).1, if_neg hne]
      exact hb
  | allocBuf n v junk hv =>
      have hne : n ≠ p := fun heq => hp (congrArg some heq)
      refine hsame ?_ ?_
      · rw [buf_put ptr h _ v (ho.held hl rfl).1, if_neg hne]
        exact hb
      · exact (Slab.get_kmalloc_of_lt _ junk (ho.bound p b hb)).trans hget
  | store n c v hc =>
      have hne : c ≠ b := by
        intro heq
        rw [heq] at hc
        exact hp (congrArg some (ho.inj n p b hc hb))
      refine hsame ?_ ?_
      · simpa [NodeHeap.buf] using hb
      · show ((h.bufs.touch c).put c v).get b = some m
        rw [Slab.get_put_ne _ v hne, Slab.get_touch]
        exact hget
  | append n => exact hsame (by simpa [NodeHeap.buf] using hb) hget
  | take n c rest hq hc =>
      exact hsame (by simpa [NodeHeap.buf] using hb) (by simpa using hget)
  | freeBuf n c hc =>
      exact hsame (by simpa [NodeHeap.buf] using hb) (by simpa using hget)
  | freeNode n => exact hsame (by simpa [NodeHeap.buf] using hb) hget

/-- A store into the buffer of the node that the call holds. -/
theorem Owned.contents_store (ho : Owned ptr h hs) {i n b : Nat}
    (hl : hs[i]? = some (.full n)) (hb : h.buf ptr n = some b) (m : α) :
    NodeHeap.contents ptr
      { h with
        nodes := h.nodes.touch n
        bufs := (h.bufs.touch b).put b m } n = some m := by
  obtain ⟨b', hb', hlive⟩ := ho.heldFull hl
  rw [hb, Option.some.injEq] at hb'
  subst hb'
  have hlt := Slab.lt_fresh_of_live hlive
  have hbuf : NodeHeap.buf ptr
      { h with
        nodes := h.nodes.touch n
        bufs := (h.bufs.touch b).put b m } n = some b := by
    simpa [NodeHeap.buf] using hb
  rw [NodeHeap.contents, hbuf]
  show ((h.bufs.touch b).put b m).get b = some m
  rw [Slab.get_put, if_pos rfl, Slab.get_touch]
  cases hget : h.bufs.get b with
  | none =>
      have hge := (Slab.get_eq_none_iff h.bufs b).mp hget
      omega
  | some old => rfl

/-- A queued node has contents. -/
theorem Owned.contents_queued (ho : Owned ptr h hs) {n : Nat}
    (hn : n ∈ h.queue) : ∃ m, h.contents ptr n = some m := by
  obtain ⟨-, b, hb, hlive⟩ := ho.queued hn
  cases hm : h.bufs.get b with
  | none =>
      have hlt := Slab.lt_fresh_of_live hlive
      have hge := (Slab.get_eq_none_iff h.bufs b).mp hm
      omega
  | some m =>
      refine ⟨m, ?_⟩
      rw [contents, hb]
      exact hm

/-- A step leaves the contents of the queued nodes alone. -/
theorem Owned.map_contents (ho : Owned ptr h hs) {i : Nat} {w w' : Hold}
    {h' : NodeHeap β α} (hl : hs[i]? = some w) (hst : Step ptr h w h' w')
    {q : List Nat} (hq : ∀ n ∈ q, n ∈ h.queue) :
    q.map (h'.contents ptr) = q.map (h.contents ptr) := by
  apply List.map_congr_left
  intro n hn
  obtain ⟨m, hm⟩ := ho.contents_queued (hq n hn)
  have hnot : w.node ≠ some n := by
    intro hw
    have hzero := (ho.held hl hw).2.1
    exact List.count_eq_zero.mp hzero (hq n hn)
  rw [hm, ho.contents_step hl hst hnot hm]

/-- A new call has nothing in its hands. -/
theorem Owned.issue (ho : Owned ptr h hs) :
    Owned ptr h (hs ++ [.nothing]) := by
  refine ho.frame (fun _ => rfl) rfl (fun p => ?_) (fun p b hb => ?_)
    (fun p => ?_) (fun p hp => ?_) ho.nodes ho.bufs
  · rw [total_append_one]
    exact ho.node p
  · rw [total_append_one]
    exact ho.buf p b hb
  · rw [total_append_one]
    exact Nat.le_refl _
  · rw [total_append_one] at hp
    exact ho.bare p hp

/-- A call that holds nothing does not count. -/
theorem Owned.retire (ho : Owned ptr h (hs ++ [.nothing])) :
    Owned ptr h hs := by
  have hnode := ho.node
  have hbuf := ho.buf
  have hfull := ho.full
  have hbare := ho.bare
  simp only [total_append_one] at hnode hbuf hfull hbare
  exact
    { ho with
      node := hnode
      buf := hbuf
      full := hfull
      bare := hbare }

/-- Taking the first node off and freeing its buffer and the node itself, as
a driver does for each node when it is unloaded. -/
theorem Owned.release (ho : Owned ptr h hs) {n b : Nat} {rest : List Nat}
    (hq : h.queue = n :: rest) (hb : h.buf ptr n = some b) :
    Owned ptr
      { nodes := (h.nodes.touch n).kfree n
        bufs := h.bufs.kfree b
        queue := rest } hs := by
  obtain ⟨hlive, b', hb', hblive⟩ := ho.queued (n := n)
    (by rw [hq]; exact List.mem_cons_self)
  rw [hb, Option.some.injEq] at hb'
  subst hb'
  -- one more call that does just that
  have hlast : ∀ w : Hold, (hs ++ [w])[hs.length]? = some w := by
    intro w
    simp
  have hset : ∀ v w : Hold, (hs ++ [v]).set hs.length w = hs ++ [w] := by
    intro v w
    simp
  have htake := ho.issue.take (hlast .nothing) hq hb
  rw [hset, Slab.touch_of_live hlive, Slab.touch_of_live hblive] at htake
  have hfree := htake.freeBuf (hlast (.full n)) hb
  rw [hset] at hfree
  have hnode := hfree.freeNode (hlast (.spent n))
  rw [hset] at hnode
  exact hnode.retire

/-- Nothing is queued and nobody holds anything: everything was freed, once. -/
theorem Owned.allFreed (ho : Owned ptr h hs) (hq : h.queue = [])
    (hnone : ∀ w ∈ hs, w = .nothing) :
    (∀ p, p < h.nodes.fresh → h.nodes.freeCount p = 1) ∧
      ∀ b, b < h.bufs.fresh → h.bufs.freeCount b = 1 := by
  have hzero : ∀ w : Hold → Nat, w .nothing = 0 → total w hs = 0 := by
    intro w hw
    apply total_eq_zero
    intro i v hv
    rw [hnone v (List.mem_of_getElem? hv)]
    exact hw
  constructor
  · intro p hp
    have hnode := ho.node p
    rw [hq, hzero (holds p) rfl] at hnode
    rcases ho.nodes.once p hp with hlive | hfreed
    · simp [Slab.alive, hlive] at hnode
    · exact hfreed
  · intro b hb
    obtain ⟨p, hp⟩ := ho.home b hb
    have hbuf := ho.buf p b hp
    rw [hq, hzero (holdsFull p) rfl] at hbuf
    rcases ho.bufs.once b hb with hlive | hfreed
    · simp [Slab.alive, hlive] at hbuf
    · exact hfreed

end NodeHeap

end EmbeddedSystem.Verified
