/-!
# The kernel's doubly linked lists

A `struct list_head` holds the addresses of its two neighbours.  The nodes of
a list form a ring through a head that is no node itself.  Memory maps an
address to the `list_head` stored there; an address that maps to `none` is
not allocated, and an access to it is a fault, so every operation returns an
`Option`.

`Ring m head ns` says that the nodes `ns` are strung on `head` in that order.
The operations of `linux/list.h` are specified by it: `list_add` puts a node
in front, `list_add_tail` at the end, `list_del` takes a node out and poisons
its links, and `list_for_each` visits the nodes in order.  A loop under
`list_for_each_safe` may take out and free the node it is at (`forEachSafe`).
-/

set_option autoImplicit false

namespace EmbeddedSystem.Verified

/-- `struct list_head` -/
structure ListHead (A : Type) where
  next : A
  prev : A
deriving DecidableEq, Repr

namespace ListHead

variable {A : Type}

/-- The list heads in memory. -/
abbrev Mem (A : Type) := A → Option (ListHead A)

/-- `p->next` -/
def nextAt (m : Mem A) (p : A) : Option A := (m p).map (·.next)

/-- `p->prev` -/
def prevAt (m : Mem A) (p : A) : Option A := (m p).map (·.prev)

/-- The two links are all there is in memory. -/
theorem mem_ext {m m' : Mem A} {p : A} (hn : nextAt m' p = nextAt m p)
    (hp : prevAt m' p = prevAt m p) : m' p = m p := by
  unfold nextAt at hn
  unfold prevAt at hp
  cases h : m p with
  | none =>
      rw [h, Option.map_none] at hn
      exact Option.map_eq_none_iff.mp hn
  | some n =>
      rw [h, Option.map_some] at hn hp
      obtain ⟨k, hk, hkn⟩ := Option.map_eq_some_iff.mp hn
      rw [hk, Option.map_some, Option.some.injEq] at hp
      rw [hk, Option.some.injEq]
      cases k
      cases n
      cases hkn
      cases hp
      rfl

theorem nextAt_eq_none {m : Mem A} {p : A} : nextAt m p = none ↔ m p = none :=
  Option.map_eq_none_iff

theorem prevAt_eq_none {m : Mem A} {p : A} : prevAt m p = none ↔ m p = none :=
  Option.map_eq_none_iff

theorem allocated_of_nextAt {m : Mem A} {p q : A} (h : nextAt m p = some q) :
    m p ≠ none := by
  rw [ne_eq, ← nextAt_eq_none, h]
  exact Option.some_ne_none q

/-! ## Nodes linked both ways -/

/-- Consecutive nodes point at each other. -/
def Linked (m : Mem A) : List A → Prop
  | x :: y :: l => nextAt m x = some y ∧ prevAt m y = some x ∧
      Linked m (y :: l)
  | _ => True

theorem linked_cons_cons {m : Mem A} {x y : A} {l : List A} :
    Linked m (x :: y :: l) ↔
      nextAt m x = some y ∧ prevAt m y = some x ∧ Linked m (y :: l) := Iff.rfl

/-- A chain that is cut in two at a node. -/
theorem linked_append {m : Mem A} {xs ys : List A} {x : A} :
    Linked m (xs ++ x :: ys) ↔
      Linked m (xs ++ [x]) ∧ Linked m (x :: ys) := by
  induction xs with
  | nil => exact ⟨fun h => ⟨trivial, h⟩, fun h => h.2⟩
  | cons a xs ih =>
      cases xs with
      | nil =>
          constructor
          · exact fun h => ⟨⟨h.1, h.2.1, trivial⟩, h.2.2⟩
          · exact fun h => ⟨h.1.1, h.1.2.1, h.2⟩
      | cons b xs =>
          simp only [List.cons_append, linked_cons_cons] at ih ⊢
          rw [ih]
          constructor
          · exact fun h => ⟨⟨h.1, h.2.1, h.2.2.1⟩, h.2.2.2⟩
          · exact fun h => ⟨h.1.1, h.1.2.1, h.1.2.2, h.2⟩

/-- A chain depends on the forward links of all nodes but the last one, and
on the backward links of all but the first one. -/
theorem Linked.congr {m m' : Mem A} {l : List A} (h : Linked m l)
    (hn : ∀ q ∈ l.dropLast, nextAt m' q = nextAt m q)
    (hp : ∀ q ∈ l.tail, prevAt m' q = prevAt m q) : Linked m' l := by
  induction l with
  | nil => trivial
  | cons x l ih =>
      cases l with
      | nil => trivial
      | cons y l =>
          rw [linked_cons_cons] at h ⊢
          refine ⟨?_, ?_, ih h.2.2 (fun q hq => hn q ?_) fun q hq => hp q ?_⟩
          · rw [hn x List.mem_cons_self]
            exact h.1
          · rw [hp y List.mem_cons_self]
            exact h.2.1
          · exact List.mem_cons_of_mem x hq
          · exact List.mem_cons_of_mem y hq

/-! ## Rings -/

/-- The nodes `ns`, in this order, form a ring with `head`. -/
structure Ring (m : Mem A) (head : A) (ns : List A) : Prop where
  nodup : (head :: ns).Nodup
  linked : Linked m (head :: ns ++ [head])

/-- What is read of a ring that is cut between `xs` and `ys`: `x` stands
before the cut and `y` behind it. -/
theorem Ring.cut {m : Mem A} {head x y : A} {xs ys as bs : List A}
    (h : Ring m head (xs ++ ys)) (hx : head :: xs = as ++ [x])
    (hy : ys ++ [head] = y :: bs) :
    Linked m (as ++ [x]) ∧ nextAt m x = some y ∧ prevAt m y = some x ∧
      Linked m (y :: bs) := by
  have hwhole : head :: (xs ++ ys) ++ [head] = as ++ x :: y :: bs := by
    rw [← List.cons_append, hx, List.append_assoc, hy, List.append_assoc]
    rfl
  have hlinked := h.linked
  rw [hwhole, linked_append] at hlinked
  exact ⟨hlinked.1, hlinked.2.1, hlinked.2.2.1, hlinked.2.2.2⟩

/-- The last node of a chain that starts at the head. -/
theorem exists_last (head : A) (xs : List A) :
    ∃ as x, head :: xs = as ++ [x] := by
  have hne : head :: xs ≠ [] := List.cons_ne_nil head xs
  exact ⟨_, _, (List.dropLast_concat_getLast hne).symm⟩

/-- The first node of a chain that ends at the head. -/
theorem exists_first (head : A) (ys : List A) :
    ∃ y bs, ys ++ [head] = y :: bs := by
  cases ys with
  | nil => exact ⟨head, [], rfl⟩
  | cons y ys => exact ⟨y, ys ++ [head], rfl⟩

/-- What the head points at. -/
theorem Ring.first {m : Mem A} {head y : A} {ns bs : List A}
    (h : Ring m head ns) (hy : ns ++ [head] = y :: bs) :
    nextAt m head = some y := by
  have hfront : Ring m head ([] ++ ns) := h
  have hx : [head] = [] ++ [head] := rfl
  exact (hfront.cut hx hy).2.1

/-- Every node of a ring is allocated, and so is its head. -/
theorem Ring.allocated {m : Mem A} {head q : A} {ns : List A}
    (h : Ring m head ns) (hq : q ∈ head :: ns) : m q ≠ none := by
  obtain ⟨xs, ys, hsplit⟩ := List.append_of_mem hq
  have hwhole : head :: ns ++ [head] = xs ++ q :: (ys ++ [head]) := by
    rw [hsplit, List.append_assoc]
    rfl
  have hlinked := h.linked
  rw [hwhole, linked_append] at hlinked
  obtain ⟨y, bs, hy⟩ := exists_first head ys
  rw [hy, linked_cons_cons] at hlinked
  exact allocated_of_nextAt hlinked.2.1

/-- A ring does not depend on memory outside of it. -/
theorem Ring.congr {m m' : Mem A} {head : A} {ns : List A}
    (h : Ring m head ns) (heq : ∀ q ∈ head :: ns, m' q = m q) :
    Ring m' head ns := by
  refine ⟨h.nodup, h.linked.congr (fun q hq => ?_) fun q hq => ?_⟩
  · rw [List.dropLast_concat] at hq
    rw [nextAt, nextAt, heq q hq]
  · rw [List.cons_append, List.tail_cons, List.mem_append,
      List.mem_singleton] at hq
    rw [prevAt, prevAt, heq q]
    rcases hq with hq | rfl
    · exact List.mem_cons_of_mem head hq
    · exact List.mem_cons_self

/-- The two sides of a cut stay as they are when the links across it change,
and those of a node `z` that is on neither side. -/
theorem Ring.sides {m m' : Mem A} {head x y z : A} {xs ys as bs : List A}
    (hnodup : (head :: (xs ++ ys)).Nodup) (hz : z ∉ head :: (xs ++ ys))
    (hx : head :: xs = as ++ [x]) (hy : ys ++ [head] = y :: bs)
    (hn : ∀ q, q ≠ x → q ≠ z → nextAt m' q = nextAt m q)
    (hp : ∀ q, q ≠ y → q ≠ z → prevAt m' q = prevAt m q) :
    (Linked m (as ++ [x]) → Linked m' (as ++ [x])) ∧
      (Linked m (y :: bs) → Linked m' (y :: bs)) := by
  have hfront : (as ++ [x]).Nodup := by
    rw [← hx]
    exact hnodup.sublist ((List.sublist_append_left xs ys).cons_cons head)
  have hback : (y :: bs).Nodup := by
    rw [← hy]
    have hperm : (ys ++ [head]).Perm (head :: ys) :=
      List.perm_append_comm
    rw [hperm.nodup_iff]
    exact hnodup.sublist ((List.sublist_append_right xs ys).cons_cons head)
  have hapart : ∀ q ∈ ys, q ∉ head :: xs := by
    rw [← List.cons_append, List.nodup_append] at hnodup
    exact fun q hq hqx => hnodup.2.2 q hqx q hq rfl
  have hnot : ∀ q ∈ xs, q ∉ ys ++ [head] := by
    intro q hq hqy
    rcases List.mem_append.mp hqy with hqy | hqh
    · exact hapart q hqy (List.mem_cons_of_mem head hq)
    · rw [List.mem_singleton] at hqh
      subst hqh
      rw [List.nodup_cons] at hnodup
      exact hnodup.1 (List.mem_append_left ys hq)
  have hxmem : x ∈ head :: xs := by
    rw [hx]
    exact List.mem_append_right as List.mem_cons_self
  have hymem : y ∈ ys ++ [head] := by
    rw [hy]
    exact List.mem_cons_self
  rw [← List.cons_append, List.mem_append, not_or] at hz
  constructor
  · intro h
    refine h.congr (fun q hq => hn q ?_ ?_) fun q hq => hp q ?_ ?_
    · rw [List.dropLast_concat] at hq
      rintro rfl
      rw [List.nodup_append] at hfront
      exact hfront.2.2 q hq q List.mem_cons_self rfl
    · rw [List.dropLast_concat] at hq
      rintro rfl
      apply hz.1
      rw [hx]
      exact List.mem_append_left [x] hq
    · rw [← hx, List.tail_cons] at hq
      rintro rfl
      exact hnot q hq hymem
    · rw [← hx, List.tail_cons] at hq
      rintro rfl
      exact hz.1 (List.mem_cons_of_mem head hq)
  · intro h
    refine h.congr (fun q hq => hn q ?_ ?_) fun q hq => hp q ?_ ?_
    · rw [← hy, List.dropLast_concat] at hq
      rintro rfl
      exact hapart q hq hxmem
    · rw [← hy, List.dropLast_concat] at hq
      rintro rfl
      exact hz.2 hq
    · rw [List.tail_cons] at hq
      rintro rfl
      rw [List.nodup_cons] at hback
      exact hback.1 hq
    · have hmem : q ∈ ys ++ [head] := by
        rw [hy]
        exact List.mem_cons_of_mem y hq
      rintro rfl
      rcases List.mem_append.mp hmem with hqy | hqh
      · exact hz.2 hqy
      · rw [List.mem_singleton] at hqh
        subst hqh
        exact hz.1 List.mem_cons_self

/-! ## Allocation -/

variable [DecidableEq A]

/-- Memory with `o` at `p`: `kmalloc` if `o` is `some`, `kfree` if it is
`none`. -/
def store (m : Mem A) (p : A) (o : Option (ListHead A)) : Mem A :=
  fun q => if q = p then o else m q

@[simp] theorem store_self (m : Mem A) (p : A) (o : Option (ListHead A)) :
    store m p o p = o := if_pos rfl

theorem store_ne {m : Mem A} {p q : A} (o : Option (ListHead A))
    (h : q ≠ p) : store m p o q = m q := if_neg h

/-- What happens to memory outside of a ring does not matter to it. -/
theorem Ring.store {m : Mem A} {head p : A} {ns : List A}
    (h : Ring m head ns) (hp : p ∉ head :: ns) (o : Option (ListHead A)) :
    Ring (store m p o) head ns := by
  apply h.congr
  intro q hq
  apply store_ne
  rintro rfl
  exact hp hq

/-! ## Assignments to a link -/

/-- `p->next = v` -/
def setNext (m : Mem A) (p v : A) : Option (Mem A) :=
  (m p).map fun n => store m p (some { n with next := v })

/-- `p->prev = v` -/
def setPrev (m : Mem A) (p v : A) : Option (Mem A) :=
  (m p).map fun n => store m p (some { n with prev := v })

theorem setNext_spec {m : Mem A} {p : A} (v : A) (h : m p ≠ none) :
    ∃ m', setNext m p v = some m' ∧
      (∀ q, nextAt m' q = if q = p then some v else nextAt m q) ∧
      (∀ q, prevAt m' q = prevAt m q) := by
  obtain ⟨n, hn⟩ := Option.ne_none_iff_exists'.mp h
  refine ⟨store m p (some { n with next := v }), ?_, fun q => ?_,
    fun q => ?_⟩
  · rw [setNext, hn, Option.map_some]
  · by_cases hq : q = p
    · rw [if_pos hq, hq, nextAt, store_self, Option.map_some]
    · rw [if_neg hq, nextAt, store_ne _ hq, nextAt]
  · by_cases hq : q = p
    · rw [hq, prevAt, store_self, Option.map_some, prevAt, hn,
        Option.map_some]
    · rw [prevAt, store_ne _ hq, prevAt]

theorem setPrev_spec {m : Mem A} {p : A} (v : A) (h : m p ≠ none) :
    ∃ m', setPrev m p v = some m' ∧
      (∀ q, nextAt m' q = nextAt m q) ∧
      (∀ q, prevAt m' q = if q = p then some v else prevAt m q) := by
  obtain ⟨n, hn⟩ := Option.ne_none_iff_exists'.mp h
  refine ⟨store m p (some { n with prev := v }), ?_, fun q => ?_,
    fun q => ?_⟩
  · rw [setPrev, hn, Option.map_some]
  · by_cases hq : q = p
    · rw [hq, nextAt, store_self, Option.map_some, nextAt, hn,
        Option.map_some]
    · rw [nextAt, store_ne _ hq, nextAt]
  · by_cases hq : q = p
    · rw [if_pos hq, hq, prevAt, store_self, Option.map_some]
    · rw [if_neg hq, prevAt, store_ne _ hq, prevAt]

/-! ## `linux/list.h` -/

/-- `INIT_LIST_HEAD(head)` -/
def initListHead (m : Mem A) (head : A) : Option (Mem A) := do
  let m ← setNext m head head
  setPrev m head head

/-- `__list_add(new, prev, next)` -/
def listInsert (m : Mem A) (new prev next : A) : Option (Mem A) := do
  let m ← setPrev m next new
  let m ← setNext m new next
  let m ← setPrev m new prev
  setNext m prev new

/-- `list_add(new, head)` -/
def listAdd (m : Mem A) (new head : A) : Option (Mem A) := do
  let next ← nextAt m head
  listInsert m new head next

/-- `list_add_tail(new, head)` -/
def listAddTail (m : Mem A) (new head : A) : Option (Mem A) := do
  let prev ← prevAt m head
  listInsert m new prev head

/-- `__list_del(prev, next)` -/
def listUnlink (m : Mem A) (prev next : A) : Option (Mem A) := do
  let m ← setPrev m next prev
  setNext m prev next

/-- `list_del(entry)`; the two poisons are the values of `LIST_POISON1` and
`LIST_POISON2`. -/
def listDel (poison1 poison2 : A) (m : Mem A) (entry : A) :
    Option (Mem A) := do
  let prev ← prevAt m entry
  let next ← nextAt m entry
  let m ← listUnlink m prev next
  let m ← setNext m entry poison1
  setPrev m entry poison2

/-- `list_empty(head)` -/
def listEmpty (m : Mem A) (head : A) : Option Bool :=
  (nextAt m head).map fun next => decide (next = head)

/-! ### What the operations do to the links -/

theorem initListHead_spec {m : Mem A} {head : A} (h : m head ≠ none) :
    ∃ m', initListHead m head = some m' ∧ Ring m' head [] ∧
      ∀ q, q ≠ head → m' q = m q := by
  obtain ⟨m₁, hm₁, hn₁, hp₁⟩ := setNext_spec head h
  have halloc : m₁ head ≠ none := by
    rw [ne_eq, ← prevAt_eq_none, hp₁, prevAt_eq_none]
    exact h
  obtain ⟨m₂, hm₂, hn₂, hp₂⟩ := setPrev_spec head halloc
  refine ⟨m₂, ?_, ⟨by simp, ?_, ?_, trivial⟩, ?_⟩
  · rw [initListHead, hm₁]
    exact hm₂
  · rw [hn₂, hn₁, if_pos rfl]
  · rw [hp₂, if_pos rfl]
  · intro q hq
    apply mem_ext
    · rw [hn₂, hn₁, if_neg hq]
    · rw [hp₂, hp₁, if_neg hq]

theorem listInsert_spec {m : Mem A} {new prev next : A}
    (hnew : m new ≠ none) (hprev : m prev ≠ none) (hnext : m next ≠ none)
    (hnp : new ≠ prev) :
    ∃ m', listInsert m new prev next = some m' ∧
      (∀ q, nextAt m' q = if q = prev then some new
        else if q = new then some next else nextAt m q) ∧
      (∀ q, prevAt m' q = if q = new then some prev
        else if q = next then some new else prevAt m q) := by
  obtain ⟨m₁, hm₁, hn₁, hp₁⟩ := setPrev_spec new hnext
  have hnew₁ : m₁ new ≠ none := by
    rw [ne_eq, ← nextAt_eq_none, hn₁, nextAt_eq_none]
    exact hnew
  obtain ⟨m₂, hm₂, hn₂, hp₂⟩ := setNext_spec next hnew₁
  have hnew₂ : m₂ new ≠ none := by
    rw [ne_eq, ← prevAt_eq_none, hp₂, prevAt_eq_none]
    exact hnew₁
  obtain ⟨m₃, hm₃, hn₃, hp₃⟩ := setPrev_spec prev hnew₂
  have hprev₃ : m₃ prev ≠ none := by
    rw [ne_eq, ← nextAt_eq_none, hn₃, hn₂, if_neg (Ne.symm hnp), hn₁,
      nextAt_eq_none]
    exact hprev
  obtain ⟨m₄, hm₄, hn₄, hp₄⟩ := setNext_spec new hprev₃
  refine ⟨m₄, ?_, fun q => ?_, fun q => ?_⟩
  · simp only [listInsert, hm₁, hm₂, hm₃, hm₄, Option.bind_eq_bind,
      Option.bind_some]
  · rw [hn₄, hn₃, hn₂, hn₁]
  · rw [hp₄, hp₃, hp₂, hp₁]

theorem listDel_spec {m : Mem A} {entry prev next : A}
    (poison1 poison2 : A) (hn : nextAt m entry = some next)
    (hp : prevAt m entry = some prev) (hprev : m prev ≠ none)
    (hnext : m next ≠ none) :
    ∃ m', listDel poison1 poison2 m entry = some m' ∧
      (∀ q, nextAt m' q = if q = entry then some poison1
        else if q = prev then some next else nextAt m q) ∧
      (∀ q, prevAt m' q = if q = entry then some poison2
        else if q = next then some prev else prevAt m q) := by
  obtain ⟨m₁, hm₁, hn₁, hp₁⟩ := setPrev_spec prev hnext
  have hprev₁ : m₁ prev ≠ none := by
    rw [ne_eq, ← nextAt_eq_none, hn₁, nextAt_eq_none]
    exact hprev
  obtain ⟨m₂, hm₂, hn₂, hp₂⟩ := setNext_spec next hprev₁
  have hentry₂ : m₂ entry ≠ none := by
    rw [ne_eq, ← prevAt_eq_none, hp₂, prevAt_eq_none, ← nextAt_eq_none, hn₁,
      hn]
    exact Option.some_ne_none next
  obtain ⟨m₃, hm₃, hn₃, hp₃⟩ := setNext_spec poison1 hentry₂
  have hentry₃ : m₃ entry ≠ none := by
    rw [ne_eq, ← prevAt_eq_none, hp₃, prevAt_eq_none]
    exact hentry₂
  obtain ⟨m₄, hm₄, hn₄, hp₄⟩ := setPrev_spec poison2 hentry₃
  refine ⟨m₄, ?_, fun q => ?_, fun q => ?_⟩
  · simp only [listDel, listUnlink, hn, hp, hm₁, hm₂, hm₃, hm₄,
      Option.bind_eq_bind, Option.bind_some]
  · rw [hn₄, hn₃, hn₂, hn₁]
  · rw [hp₄, hp₃, hp₂, hp₁]

/-! ### What they do to a ring -/

/-- A node that is not on the list is put where the list is cut. -/
theorem Ring.insert {m : Mem A} {head new x y : A} {xs ys as bs : List A}
    (h : Ring m head (xs ++ ys)) (hnew : new ∉ head :: (xs ++ ys))
    (halloc : m new ≠ none) (hx : head :: xs = as ++ [x])
    (hy : ys ++ [head] = y :: bs) :
    ∃ m', listInsert m new x y = some m' ∧ Ring m' head (xs ++ new :: ys) ∧
      (∀ q, m' q = none ↔ m q = none) ∧
      ∀ q, q ∉ head :: (xs ++ new :: ys) → m' q = m q := by
  obtain ⟨hfront, hxy, hyx, hback⟩ := h.cut hx hy
  have hxmem : x ∈ head :: (xs ++ ys) := by
    rw [← List.cons_append, hx]
    simp
  have hymem : y ∈ head :: (xs ++ ys) := by
    have hmem : y ∈ ys ++ [head] := by
      rw [hy]
      exact List.mem_cons_self
    rcases List.mem_append.mp hmem with hys | hhead
    · exact List.mem_cons_of_mem head (List.mem_append_right xs hys)
    · rw [List.mem_singleton.mp hhead]
      exact List.mem_cons_self
  have hnx : new ≠ x := fun heq => hnew (heq ▸ hxmem)
  have hny : new ≠ y := fun heq => hnew (heq ▸ hymem)
  obtain ⟨m', hm', hn', hp'⟩ := listInsert_spec halloc
    (h.allocated hxmem) (h.allocated hymem) hnx
  have hn : ∀ q, q ≠ x → q ≠ new → nextAt m' q = nextAt m q :=
    fun q hqx hqn => by rw [hn', if_neg hqx, if_neg hqn]
  have hp : ∀ q, q ≠ y → q ≠ new → prevAt m' q = prevAt m q :=
    fun q hqy hqn => by rw [hp', if_neg hqn, if_neg hqy]
  have hsides := Ring.sides h.nodup hnew hx hy hn hp
  have hperm : (head :: (xs ++ new :: ys)).Perm
      (new :: head :: (xs ++ ys)) :=
    (List.perm_middle.cons head).trans (List.Perm.swap new head _)
  refine ⟨m', hm', ⟨?_, ?_⟩, fun q => ?_, fun q hq => ?_⟩
  · rw [hperm.nodup_iff, List.nodup_cons]
    exact ⟨hnew, h.nodup⟩
  · have hwhole : head :: (xs ++ new :: ys) ++ [head] =
        as ++ x :: new :: y :: bs := by
      rw [← List.cons_append, hx, List.append_assoc, List.cons_append, hy,
        List.append_assoc]
      rfl
    rw [hwhole, linked_append]
    refine ⟨hsides.1 hfront, ?_, ?_, ?_, ?_, hsides.2 hback⟩
    · rw [hn', if_pos rfl]
    · rw [hp', if_pos rfl]
    · rw [hn', if_neg hnx, if_pos rfl]
    · rw [hp', if_neg (Ne.symm hny), if_pos rfl]
  · rw [← nextAt_eq_none, hn']
    by_cases hqx : q = x
    · rw [if_pos hqx, hqx]
      exact iff_of_false (Option.some_ne_none new) (h.allocated hxmem)
    · rw [if_neg hqx]
      by_cases hqn : q = new
      · rw [if_pos hqn, hqn]
        exact iff_of_false (Option.some_ne_none y) halloc
      · rw [if_neg hqn]
        exact nextAt_eq_none
  · rw [hperm.mem_iff, List.mem_cons, not_or] at hq
    have hqx : q ≠ x := fun heq => hq.2 (heq ▸ hxmem)
    have hqy : q ≠ y := fun heq => hq.2 (heq ▸ hymem)
    apply mem_ext
    · rw [hn', if_neg hqx, if_neg hq.1]
    · rw [hp', if_neg hq.1, if_neg hqy]

/-- `list_add` puts a new node in front. -/
theorem Ring.listAdd {m : Mem A} {head new : A} {ns : List A}
    (h : Ring m head ns) (hnew : new ∉ head :: ns) (halloc : m new ≠ none) :
    ∃ m', listAdd m new head = some m' ∧ Ring m' head (new :: ns) ∧
      (∀ q, m' q = none ↔ m q = none) ∧
      ∀ q, q ∉ head :: new :: ns → m' q = m q := by
  obtain ⟨y, bs, hy⟩ := exists_first head ns
  have hfront : Ring m head ([] ++ ns) := h
  have hx : [head] = [] ++ [head] := rfl
  obtain ⟨m', hm', hspec⟩ := hfront.insert hnew halloc hx hy
  refine ⟨m', ?_, hspec⟩
  rw [ListHead.listAdd, h.first hy]
  exact hm'

/-- `list_add_tail` puts a new node at the end. -/
theorem Ring.listAddTail {m : Mem A} {head new : A} {ns : List A}
    (h : Ring m head ns) (hnew : new ∉ head :: ns) (halloc : m new ≠ none) :
    ∃ m', listAddTail m new head = some m' ∧ Ring m' head (ns ++ [new]) ∧
      (∀ q, m' q = none ↔ m q = none) ∧
      ∀ q, q ∉ head :: (ns ++ [new]) → m' q = m q := by
  obtain ⟨as, x, hx⟩ := exists_last head ns
  have hnil : Ring m head (ns ++ []) := by
    rw [List.append_nil]
    exact h
  have hnew' : new ∉ head :: (ns ++ []) := by
    rw [List.append_nil]
    exact hnew
  have hy : [] ++ [head] = head :: [] := rfl
  obtain ⟨m', hm', hspec⟩ := hnil.insert hnew' halloc hx hy
  have hlast := (hnil.cut hx hy).2.2.1
  refine ⟨m', ?_, hspec⟩
  rw [ListHead.listAddTail, hlast]
  exact hm'

/-- `list_del` takes a node out, wherever it stands. -/
theorem Ring.listDel {m : Mem A} {head e : A} {xs ys : List A}
    (poison1 poison2 : A) (h : Ring m head (xs ++ e :: ys)) :
    ∃ m', listDel poison1 poison2 m e = some m' ∧ Ring m' head (xs ++ ys) ∧
      (∀ q, m' q = none ↔ m q = none) ∧
      ∀ q, q ∉ head :: (xs ++ e :: ys) → m' q = m q := by
  obtain ⟨as, x, hx⟩ := exists_last head xs
  obtain ⟨y, bs, hy⟩ := exists_first head ys
  have hperm : (head :: (xs ++ e :: ys)).Perm (e :: head :: (xs ++ ys)) :=
    (List.perm_middle.cons head).trans (List.Perm.swap e head _)
  have hnodup := h.nodup
  rw [hperm.nodup_iff, List.nodup_cons] at hnodup
  have hmem : ∀ q, q ∈ head :: (xs ++ ys) → m q ≠ none := by
    intro q hq
    apply h.allocated
    rw [hperm.mem_iff]
    exact List.mem_cons_of_mem e hq
  have hxmem : x ∈ head :: (xs ++ ys) := by
    rw [← List.cons_append, hx]
    simp
  have hymem : y ∈ head :: (xs ++ ys) := by
    have hyin : y ∈ ys ++ [head] := by
      rw [hy]
      exact List.mem_cons_self
    rcases List.mem_append.mp hyin with hys | hhead
    · exact List.mem_cons_of_mem head (List.mem_append_right xs hys)
    · rw [List.mem_singleton.mp hhead]
      exact List.mem_cons_self
  -- the node with its two neighbours
  have hwhole : head :: (xs ++ e :: ys) ++ [head] =
      as ++ x :: e :: y :: bs := by
    rw [← List.cons_append, hx, List.append_assoc, List.cons_append, hy,
      List.append_assoc]
    rfl
  have hlinked := h.linked
  rw [hwhole, linked_append] at hlinked
  obtain ⟨hfront, hxe, hex, hey, hye, hback⟩ := hlinked
  obtain ⟨m', hm', hn', hp'⟩ := listDel_spec poison1 poison2 hey hex
    (hmem x hxmem) (hmem y hymem)
  have hxe' : x ≠ e := fun heq => hnodup.1 (heq ▸ hxmem)
  have hye' : y ≠ e := fun heq => hnodup.1 (heq ▸ hymem)
  have hn : ∀ q, q ≠ x → q ≠ e → nextAt m' q = nextAt m q :=
    fun q hqx hqe => by rw [hn', if_neg hqe, if_neg hqx]
  have hp : ∀ q, q ≠ y → q ≠ e → prevAt m' q = prevAt m q :=
    fun q hqy hqe => by rw [hp', if_neg hqe, if_neg hqy]
  have hsides := Ring.sides hnodup.2 hnodup.1 hx hy hn hp
  refine ⟨m', hm', ⟨hnodup.2, ?_⟩, fun q => ?_, fun q hq => ?_⟩
  · have hrest : head :: (xs ++ ys) ++ [head] = as ++ x :: y :: bs := by
      rw [← List.cons_append, hx, List.append_assoc, hy, List.append_assoc]
      rfl
    rw [hrest, linked_append]
    refine ⟨hsides.1 hfront, ?_, ?_, hsides.2 hback⟩
    · rw [hn', if_neg hxe', if_pos rfl]
    · rw [hp', if_neg hye', if_pos rfl]
  · rw [← nextAt_eq_none, hn']
    by_cases hqe : q = e
    · rw [if_pos hqe, hqe]
      exact iff_of_false (Option.some_ne_none poison1)
        (allocated_of_nextAt hey)
    · rw [if_neg hqe]
      by_cases hqx : q = x
      · rw [if_pos hqx, hqx]
        exact iff_of_false (Option.some_ne_none y) (hmem x hxmem)
      · rw [if_neg hqx]
        exact nextAt_eq_none
  · rw [hperm.mem_iff, List.mem_cons, not_or] at hq
    have hqx : q ≠ x := fun heq => hq.2 (heq ▸ hxmem)
    have hqy : q ≠ y := fun heq => hq.2 (heq ▸ hymem)
    apply mem_ext
    · rw [hn', if_neg hq.1, if_neg hqx]
    · rw [hp', if_neg hq.1, if_neg hqy]

/-- `list_empty` tells whether there is a node. -/
theorem Ring.listEmpty {m : Mem A} {head : A} {ns : List A}
    (h : Ring m head ns) : listEmpty m head = some ns.isEmpty := by
  cases ns with
  | nil =>
      have hfirst : nextAt m head = some head := h.first rfl
      rw [ListHead.listEmpty, hfirst]
      simp
  | cons n ns =>
      have hfirst : nextAt m head = some n := h.first rfl
      have hne : n ≠ head := by
        have hnodup := h.nodup
        rw [List.nodup_cons] at hnodup
        exact fun heq => hnodup.1 (heq ▸ List.mem_cons_self)
      rw [ListHead.listEmpty, hfirst]
      simp [hne]

/-! ### Loops over a list -/

/-- The loop of `list_for_each_safe(pos, q, head)` at `pos`, with `q` read
already, over a state whose list heads are `links`. -/
def forEachSafe {S : Type} (links : S → Mem A) (head : A)
    (body : A → S → Option S) : Nat → A → A → S → Option S
  | 0, _, _, _ => none
  | fuel + 1, pos, q, s =>
      if pos = head then some s
      else do
        let s ← body pos s
        let next ← nextAt (links s) q
        forEachSafe links head body fuel q next s

/-- `list_for_each_safe(pos, q, head)` -/
def listForEachSafe {S : Type} (links : S → Mem A) (head : A)
    (body : A → S → Option S) (fuel : Nat) (s : S) : Option S := do
  let pos ← nextAt (links s) head
  let q ← nextAt (links s) pos
  forEachSafe links head body fuel pos q s

/-- Let `I ps s` say that the nodes `ps` are still to be visited and stand at
the end of the list.  A body that keeps it is run for every node. -/
theorem forEachSafe_spec {S : Type} {links : S → Mem A} {head : A}
    {body : A → S → Option S} {I : List A → S → Prop}
    (hring : ∀ ps s, I ps s → ∃ kept, Ring (links s) head (kept ++ ps))
    (hbody : ∀ p ps s, I (p :: ps) s → ∃ s', body p s = some s' ∧ I ps s')
    {ps bs : List A} {pos : A} {fuel : Nat} {s : S} (hI : I ps s)
    (hps : ps ++ [head] = pos :: bs) (hfuel : ps.length < fuel) :
    ∀ q, nextAt (links s) pos = some q →
      ∃ s', forEachSafe links head body fuel pos q s = some s' ∧ I [] s' := by
  induction ps generalizing pos bs fuel s with
  | nil =>
      intro q hq
      cases hps
      cases fuel with
      | zero => exact absurd hfuel (Nat.lt_irrefl 0)
      | succ fuel => exact ⟨s, if_pos rfl, hI⟩
  | cons p ps ih =>
      intro q hq
      cases hps
      cases fuel with
      | zero => exact absurd hfuel (Nat.not_lt_zero _)
      | succ fuel =>
          obtain ⟨kept, hbefore⟩ := hring (p :: ps) s hI
          -- `q` is the node behind `p`, or the head
          obtain ⟨q', cs, hq'⟩ := exists_first head ps
          have hnodup := hbefore.nodup
          have hmiddle : Ring (links s) head ((kept ++ [p]) ++ ps) := by
            rw [List.append_assoc]
            exact hbefore
          have hp : head :: (kept ++ [p]) = (head :: kept) ++ [p] := rfl
          rw [(hmiddle.cut hp hq').2.1, Option.some.injEq] at hq
          subst hq
          have hne : p ≠ head := by
            rw [List.nodup_cons] at hnodup
            rintro rfl
            exact hnodup.1 (List.mem_append_right kept List.mem_cons_self)
          obtain ⟨t, ht, hIt⟩ := hbody p ps s hI
          obtain ⟨kept', hafter⟩ := hring ps t hIt
          have halloc : links t q' ≠ none := by
            apply hafter.allocated
            have hmem : q' ∈ ps ++ [head] := by
              rw [hq']
              exact List.mem_cons_self
            rcases List.mem_append.mp hmem with hps | hhead
            · exact List.mem_cons_of_mem head (List.mem_append_right _ hps)
            · rw [List.mem_singleton.mp hhead]
              exact List.mem_cons_self
          rw [ne_eq, ← nextAt_eq_none] at halloc
          obtain ⟨r, hr⟩ := Option.ne_none_iff_exists'.mp halloc
          have hlen : ps.length < fuel := by
            rw [List.length_cons] at hfuel
            omega
          obtain ⟨u, hu, hIu⟩ := ih hIt hq' hlen r hr
          refine ⟨u, ?_, hIu⟩
          rw [forEachSafe, if_neg hne, ht]
          simp only [Option.bind_eq_bind, Option.bind_some, hr]
          exact hu

/-- The rule for the whole loop. -/
theorem listForEachSafe_spec {S : Type} {links : S → Mem A} {head : A}
    {body : A → S → Option S} {I : List A → S → Prop}
    (hring : ∀ ps s, I ps s → ∃ kept, Ring (links s) head (kept ++ ps))
    (hbody : ∀ p ps s, I (p :: ps) s → ∃ s', body p s = some s' ∧ I ps s')
    {ps : List A} {fuel : Nat} {s : S} (hI : I ps s)
    (hall : Ring (links s) head ps) (hfuel : ps.length < fuel) :
    ∃ s', listForEachSafe links head body fuel s = some s' ∧ I [] s' := by
  obtain ⟨pos, bs, hpos⟩ := exists_first head ps
  have hfirst := hall.first hpos
  have halloc : links s pos ≠ none := by
    apply hall.allocated
    have hmem : pos ∈ ps ++ [head] := by
      rw [hpos]
      exact List.mem_cons_self
    rcases List.mem_append.mp hmem with hps | hhead
    · exact List.mem_cons_of_mem head hps
    · rw [List.mem_singleton.mp hhead]
      exact List.mem_cons_self
  rw [ne_eq, ← nextAt_eq_none] at halloc
  obtain ⟨q, hq⟩ := Option.ne_none_iff_exists'.mp halloc
  obtain ⟨t, ht, hIt⟩ := forEachSafe_spec hring hbody hI hpos hfuel q hq
  refine ⟨t, ?_, hIt⟩
  rw [listForEachSafe]
  simp only [Option.bind_eq_bind, hfirst, Option.bind_some, hq]
  exact ht

/-- The loop of `list_for_each(pos, head)` at `pos`. -/
def forEach {S : Type} (links : S → Mem A) (head : A)
    (body : A → S → Option S) : Nat → A → S → Option S
  | 0, _, _ => none
  | fuel + 1, pos, s =>
      if pos = head then some s
      else do
        let s ← body pos s
        let next ← nextAt (links s) pos
        forEach links head body fuel next s

/-- `list_for_each(pos, head)` -/
def listForEach {S : Type} (links : S → Mem A) (head : A)
    (body : A → S → Option S) (fuel : Nat) (s : S) : Option S := do
  let pos ← nextAt (links s) head
  forEach links head body fuel pos s

/-- The rule for a loop whose body leaves the list as it is: `I done ps s`
says what holds when the nodes `done` were visited and `ps` are left. -/
theorem forEach_spec {S : Type} {links : S → Mem A} {head : A}
    {body : A → S → Option S} {ns : List A} {I : List A → List A → S → Prop}
    (hring : ∀ done ps s, I done ps s → Ring (links s) head ns)
    (hbody : ∀ done p ps s, done ++ p :: ps = ns → I done (p :: ps) s →
      ∃ s', body p s = some s' ∧ I (done ++ [p]) ps s')
    {done ps bs : List A} {pos : A} {fuel : Nat} {s : S} (hI : I done ps s)
    (hns : done ++ ps = ns) (hps : ps ++ [head] = pos :: bs)
    (hfuel : ps.length < fuel) :
    ∃ s', forEach links head body fuel pos s = some s' ∧ I ns [] s' := by
  induction ps generalizing done pos bs fuel s with
  | nil =>
      cases hps
      rw [List.append_nil] at hns
      subst hns
      cases fuel with
      | zero => exact absurd hfuel (Nat.lt_irrefl 0)
      | succ fuel => exact ⟨s, if_pos rfl, hI⟩
  | cons p ps ih =>
      cases hps
      cases fuel with
      | zero => exact absurd hfuel (Nat.not_lt_zero _)
      | succ fuel =>
          have hnodup := (hring done (p :: ps) s hI).nodup
          have hne : p ≠ head := by
            rw [List.nodup_cons] at hnodup
            rintro rfl
            apply hnodup.1
            rw [← hns]
            exact List.mem_append_right done List.mem_cons_self
          obtain ⟨t, ht, hIt⟩ := hbody done p ps s hns hI
          have hafter := hring (done ++ [p]) ps t hIt
          obtain ⟨q, cs, hq⟩ := exists_first head ps
          have hsplit : (done ++ [p]) ++ ps = ns := by
            rw [List.append_assoc]
            exact hns
          rw [← hsplit] at hafter
          have hp : head :: (done ++ [p]) = (head :: done) ++ [p] := rfl
          have hnext := (hafter.cut hp hq).2.1
          have hlen : ps.length < fuel := by
            rw [List.length_cons] at hfuel
            omega
          obtain ⟨u, hu, hIu⟩ := ih hIt hsplit hq hlen
          refine ⟨u, ?_, hIu⟩
          rw [forEach, if_neg hne, ht]
          simp only [Option.bind_eq_bind, Option.bind_some, hnext]
          exact hu

theorem listForEach_spec {S : Type} {links : S → Mem A} {head : A}
    {body : A → S → Option S} {ns : List A} {I : List A → List A → S → Prop}
    (hring : ∀ done ps s, I done ps s → Ring (links s) head ns)
    (hbody : ∀ done p ps s, done ++ p :: ps = ns → I done (p :: ps) s →
      ∃ s', body p s = some s' ∧ I (done ++ [p]) ps s')
    {fuel : Nat} {s : S} (hI : I [] ns s) (hfuel : ns.length < fuel) :
    ∃ s', listForEach links head body fuel s = some s' ∧ I ns [] s' := by
  obtain ⟨pos, bs, hpos⟩ := exists_first head ns
  have hfirst := (hring [] ns s hI).first hpos
  obtain ⟨t, ht, hIt⟩ := forEach_spec hring hbody hI rfl hpos hfuel
  refine ⟨t, ?_, hIt⟩
  rw [listForEach]
  simp only [Option.bind_eq_bind, hfirst, Option.bind_some]
  exact ht

end ListHead

end EmbeddedSystem.Verified
