import EmbeddedSystem.Verified.ListHead
import EmbeddedSystem.Verified.ListWalk
import EmbeddedSystem.Verified.Slab

/-!
# A queue of nodes and its links

Where a driver strings nodes of the allocator on a `list_head`, a model of it
keeps the addresses of the queued nodes in order and leaves the links out.
`Strung` connects such a queue with the links: they form a ring of exactly
these nodes, and a link can be read as long as its node is live.  The lemmas
say how the allocator and the operations on lists keep the two in step, and
what `list_empty` and the links in memory tell about the queue.
-/

set_option autoImplicit false

namespace EmbeddedSystem.Verified.LinkedSlab

open EmbeddedSystem.Verified.ListHead

variable {α : Type}

/-- A pointer to a `list_head`: `none` is the head of the queue and `some n`
the member of node `n`. -/
abbrev Ptr := Option Nat

/-- The queue as it stands in memory. -/
structure Strung (links : Mem Ptr) (nodes : Slab α) (queue : List Nat) :
    Prop where
  ring : Ring links none (queue.map some)
  allocated : ∀ n, links (some n) ≠ none ↔ nodes.live n = true

variable {links : Mem Ptr} {nodes : Slab α} {queue : List Nat}

/-- The links right after `INIT_LIST_HEAD`. -/
def initLinks : Mem Ptr := store (fun _ => none) none (some ⟨none, none⟩)

theorem strung_init : Strung initLinks (Slab.empty : Slab α) [] := by
  refine ⟨⟨by simp, rfl, rfl, trivial⟩, fun n => ?_⟩
  rw [initLinks, store_ne _ (Option.some_ne_none n)]
  simp [Slab.live, Slab.empty]

theorem Strung.live (h : Strung links nodes queue) {n : Nat}
    (hn : n ∈ queue) : nodes.live n = true := by
  rw [← h.allocated]
  apply h.ring.allocated
  exact List.mem_cons_of_mem none (List.mem_map_of_mem hn)

theorem Strung.nodup (h : Strung links nodes queue) : queue.Nodup := by
  have hring := h.ring.nodup
  rw [List.nodup_cons] at hring
  have hne : ∀ a b : Nat, (some a : Ptr) ≠ some b → a ≠ b :=
    fun _ _ hne heq => hne (congrArg some heq)
  exact List.Pairwise.of_map some hne hring.2

/-- A node that is not queued is no part of the ring. -/
theorem notMem_ring {n : Nat} (hn : n ∉ queue) :
    (some n : Ptr) ∉ none :: queue.map some := by
  rw [List.mem_cons, List.mem_map, not_or]
  refine ⟨Option.some_ne_none n, ?_⟩
  rintro ⟨k, hk, hkn⟩
  rw [Option.some.injEq] at hkn
  exact hn (hkn ▸ hk)

/-- Only what is live matters about the nodes. -/
theorem Strung.of_live {β : Type} (h : Strung links nodes queue)
    {nodes' : Slab β} (hlive : ∀ n, nodes'.live n = nodes.live n) :
    Strung links nodes' queue :=
  ⟨h.ring, fun n => by rw [hlive, h.allocated]⟩

/-! ## The allocator -/

/-- A new node; `junk` is what its links contain. -/
theorem Strung.kmalloc (h : Strung links nodes queue) (v : α)
    (junk : ListHead Ptr) :
    Strung (store links (some nodes.fresh) (some junk)) (nodes.kmalloc v)
      queue := by
  have hnot : nodes.fresh ∉ queue := by
    intro hmem
    have hlive := h.live hmem
    rw [Slab.live_fresh] at hlive
    cases hlive
  refine ⟨h.ring.store (notMem_ring hnot) _, fun n => ?_⟩
  rw [Slab.live_kmalloc, Bool.or_eq_true, beq_iff_eq]
  by_cases hn : n = nodes.fresh
  · rw [hn, store_self]
    simp
  · have hne : (some n : Ptr) ≠ some nodes.fresh := by simpa using hn
    rw [store_ne _ hne, h.allocated]
    simp [hn]

/-- A node that is not queued may be freed. -/
theorem Strung.kfree (h : Strung links nodes queue) {n : Nat}
    (hn : n ∉ queue) :
    Strung (store links (some n) none) (nodes.kfree n) queue := by
  refine ⟨h.ring.store (notMem_ring hn) _, fun k => ?_⟩
  rw [Slab.live_kfree, Bool.and_eq_true, bne_iff_ne]
  by_cases hk : k = n
  · rw [hk, store_self]
    simp
  · have hne : (some k : Ptr) ≠ some n := by simpa using hk
    have hkn : n ≠ k := fun heq => hk heq.symm
    rw [store_ne _ hne, h.allocated]
    simp [hkn]

/-! ## The list -/

theorem Strung.listEmpty (h : Strung links nodes queue) :
    listEmpty links none = some queue.isEmpty := by
  rw [h.ring.listEmpty]
  cases queue <;> rfl

/-- `head->next` -/
theorem Strung.first (h : Strung links nodes queue) :
    nextAt links none = some queue.head? := by
  cases queue with
  | nil => exact h.ring.first rfl
  | cons n rest => exact h.ring.first rfl

theorem Strung.listAddTail (h : Strung links nodes queue) {n : Nat}
    (hn : n ∉ queue) (hlive : nodes.live n = true) :
    ∃ links', listAddTail links (some n) none = some links' ∧
      Strung links' nodes (queue ++ [n]) := by
  obtain ⟨links', hadd, hring, hnone, -⟩ :=
    h.ring.listAddTail (notMem_ring hn) ((h.allocated n).mpr hlive)
  refine ⟨links', hadd, ?_, fun k => ?_⟩
  · rw [List.map_append]
    exact hring
  · rw [ne_eq, hnone]
    exact h.allocated k

/-- `list_del` of a queued node. -/
theorem Strung.listDel (poison1 poison2 : Ptr) {xs ys : List Nat} {n : Nat}
    (h : Strung links nodes (xs ++ n :: ys)) :
    ∃ links', listDel poison1 poison2 links (some n) = some links' ∧
      Strung links' nodes (xs ++ ys) := by
  have hring := h.ring
  rw [List.map_append, List.map_cons] at hring
  obtain ⟨links', hdel, hring', hnone, -⟩ := hring.listDel poison1 poison2
  refine ⟨links', hdel, ?_, fun k => ?_⟩
  · rw [List.map_append]
    exact hring'
  · rw [ne_eq, hnone]
    exact h.allocated k

/-! ## Emptying the queue -/

/-- What a loop under `list_for_each_safe` works on: the links and whatever
else the state has. -/
structure Emptying (S : Type) where
  links : Mem Ptr
  rest : S

/-- A body that takes its node out of the list and frees it; `free` is what
happens to the rest of the state. -/
def emptyBody {S : Type} (poison1 poison2 : Ptr)
    (free : Nat → S → Option S) (pos : Ptr) (s : Emptying S) :
    Option (Emptying S) := do
  let links ← listDel poison1 poison2 s.links pos
  let n ← pos
  let rest ← free n s.rest
  some ⟨store links pos none, rest⟩

/-- The loop with that body. -/
def emptyList {S : Type} (poison1 poison2 : Ptr)
    (free : Nat → S → Option S) (fuel : Nat) (s : Emptying S) :
    Option (Emptying S) :=
  listForEachSafe Emptying.links none (emptyBody poison1 poison2 free) fuel s

/-- The loop visits the queue in order and leaves an empty list.  `I` is what
the rest of the state meets when the nodes of its argument are left. -/
theorem emptyList_spec {S : Type} {nodesOf : S → Slab α}
    {I : List Nat → S → Prop} {free : Nat → S → Option S}
    (poison1 poison2 : Ptr)
    (hfree : ∀ n q s, I (n :: q) s → ∃ s', free n s = some s' ∧ I q s' ∧
      ∀ k, (nodesOf s').live k = ((nodesOf s).live k && n != k))
    {fuel : Nat} {s : S} (h : Strung links (nodesOf s) queue)
    (hI : I queue s) (hfuel : queue.length < fuel) :
    ∃ s', emptyList poison1 poison2 free fuel ⟨links, s⟩ = some s' ∧
      Strung s'.links (nodesOf s'.rest) [] ∧ I [] s'.rest := by
  let J : List Ptr → Emptying S → Prop := fun ps s =>
    ∃ q, ps = q.map some ∧ Strung s.links (nodesOf s.rest) q ∧ I q s.rest
  have hring : ∀ ps s, J ps s → ∃ kept, Ring s.links none (kept ++ ps) := by
    rintro ps s ⟨q, rfl, hstrung, -⟩
    exact ⟨[], hstrung.ring⟩
  have hbody : ∀ p ps s, J (p :: ps) s →
      ∃ s', emptyBody poison1 poison2 free p s = some s' ∧ J ps s' := by
    rintro p ps s ⟨q, hq, hstrung, hI⟩
    cases q with
    | nil => cases hq
    | cons n q =>
        rw [List.map_cons, List.cons.injEq] at hq
        obtain ⟨rfl, rfl⟩ := hq
        have hnodup := hstrung.nodup
        rw [List.nodup_cons] at hnodup
        have hfront : Strung s.links (nodesOf s.rest) ([] ++ n :: q) := hstrung
        obtain ⟨links', hdel, hrest⟩ := hfront.listDel poison1 poison2
        obtain ⟨t, ht, hIt, hlive⟩ := hfree n q s.rest hI
        refine ⟨⟨store links' (some n) none, t⟩, ?_, q, rfl, ?_, hIt⟩
        · simp [emptyBody, hdel, ht]
        · apply (hrest.kfree hnodup.1).of_live
          intro k
          rw [hlive, Slab.live_kfree]
  have hstart : J (queue.map some) ⟨links, s⟩ := ⟨queue, rfl, h, hI⟩
  obtain ⟨s', hs', q, hq, hstrung, hend⟩ :=
    listForEachSafe_spec (I := J) hring hbody hstart h.ring
      (by rw [List.length_map]; exact hfuel)
  have hnil : q = [] := List.map_eq_nil_iff.mp hq.symm
  subst hnil
  exact ⟨s', hs', hstrung, hend⟩

end EmbeddedSystem.Verified.LinkedSlab
