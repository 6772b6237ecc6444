import EmbeddedSystem.Verified.ListHead

/-!
# `simple_linked_list.c`

Loading the module strings five nodes on a list, each in front of the last,
and prints the list; unloading it walks over the list and frees every node.
The program is modelled on the links themselves: `list` and `id` are the two
fields of the `struct test_list` at an address, and what `kmalloc` returns
and what the new memory contains is left to the environment.

The result is about both functions together: they never touch memory that is
not allocated, and after them memory is as it was.
-/

set_option autoImplicit false

namespace EmbeddedSystem.Labs.SimpleLinkedList

open EmbeddedSystem.Verified
open EmbeddedSystem.Verified.ListHead

/-- What the module prints. -/
inductive Line where
  | initModule
  | addTheNode (id : Int)
  | useListForEach
  | pos (i : Nat) (id : Int)
  | exitModule
  | freePos (i : Nat) (id : Int)
deriving DecidableEq, Repr

/-- Memory, field by field of `struct test_list`, and the kernel log. -/
structure Kernel (A : Type) where
  list : Mem A
  id : A → Option Int
  log : List Line

/-- What `kmalloc` returns: an address and what is found there. -/
structure Fresh (A : Type) where
  addr : A
  list : ListHead A
  id : Int
deriving DecidableEq, Repr

variable {A : Type} [DecidableEq A]

namespace Kernel

/-- `tmp = kmalloc(sizeof(struct test_list), GFP_KERNEL)` -/
def kmalloc (s : Kernel A) (f : Fresh A) : Kernel A :=
  { s with
    list := store s.list f.addr (some f.list)
    id := fun q => if q = f.addr then some f.id else s.id q }

/-- `kfree(p)` of a node that is allocated. -/
def kfree (s : Kernel A) (p : A) : Option (Kernel A) :=
  (s.list p).map fun _ =>
    { s with
      list := store s.list p none
      id := fun q => if q = p then none else s.id q }

/-- `p->id = v` -/
def setId (s : Kernel A) (p : A) (v : Int) : Option (Kernel A) :=
  (s.id p).map fun _ =>
    { s with id := fun q => if q = p then some v else s.id q }

def printk (s : Kernel A) (line : Line) : Kernel A :=
  { s with log := s.log ++ [line] }

end Kernel

/-! ## `simple_linked_list_init` -/

/-- Round `i` of the loop that adds the nodes.  A null pointer returned by
`kmalloc` is dereferenced at once. -/
def addNode (mylist : A) (i : Nat) (tmp : Option (Fresh A)) (s : Kernel A) :
    Option (Kernel A) := do
  let f ← tmp
  let s ← (s.kmalloc f).setId f.addr (i + 100)
  let id ← s.id f.addr
  let s := s.printk (.addTheNode id)
  let list ← listAdd s.list f.addr mylist
  some { s with list := list }

/-- The loop from round `i` on. -/
def addNodes (mylist : A) (i : Nat) :
    List (Option (Fresh A)) → Kernel A → Option (Kernel A)
  | [], s => some s
  | tmp :: tmps, s => do
      let s ← addNode mylist i tmp s
      addNodes mylist (i + 1) tmps s

/-- The body of the `list_for_each` loop, with the counter `i`. -/
def printNode (pos : A) (s : Kernel A × Nat) : Option (Kernel A × Nat) := do
  let id ← s.1.id pos
  some (s.1.printk (.pos s.2 id), s.2 + 1)

/-- `simple_linked_list_init` -/
def simpleLinkedListInit (mylist : A) (tmps : Vector (Option (Fresh A)) 5)
    (fuel : Nat) (s : Kernel A) : Option (Kernel A) := do
  let s := s.printk .initModule
  let list ← initListHead s.list mylist
  let s ← addNodes mylist 0 tmps.toList { s with list := list }
  let s := s.printk .useListForEach
  let r ← listForEach (fun s => s.1.list) mylist printNode fuel (s, 0)
  some r.1

/-! ## `simple_linked_list_exit` -/

/-- The body of the `list_for_each_safe` loop. -/
def freeNode (poison1 poison2 : A) (pos : A) (s : Kernel A × Nat) :
    Option (Kernel A × Nat) := do
  let id ← s.1.id pos
  let k := s.1.printk (.freePos s.2 id)
  let list ← listDel poison1 poison2 k.list pos
  let k ← Kernel.kfree { k with list := list } pos
  some (k, s.2 + 1)

/-- `simple_linked_list_exit` -/
def simpleLinkedListExit (poison1 poison2 mylist : A) (fuel : Nat)
    (s : Kernel A) : Option (Kernel A) := do
  let s := s.printk .exitModule
  let r ← listForEachSafe (fun s => s.1.list) mylist
    (freeNode poison1 poison2) fuel (s, 0)
  some r.1

/-! ## Loading -/

/-- The addresses are distinct and none of them is in use. -/
structure Unused (s : Kernel A) (fs : List (Fresh A)) : Prop where
  nodup : (fs.map Fresh.addr).Nodup
  free : ∀ f ∈ fs, s.list f.addr = none
  freeId : ∀ f ∈ fs, s.id f.addr = none

theorem addNode_spec {mylist : A} {f : Fresh A} {s : Kernel A} {ns : List A}
    (i : Nat) (hring : Ring s.list mylist ns) (hfree : s.list f.addr = none) :
    ∃ t, addNode mylist i (some f) s = some t ∧
      Ring t.list mylist (f.addr :: ns) ∧
      (∀ q, t.id q = if q = f.addr then some (i + 100 : Int) else s.id q) ∧
      t.log = s.log ++ [.addTheNode (i + 100)] ∧
      ∀ q, q ∉ mylist :: f.addr :: ns → t.list q = s.list q := by
  have hnot : f.addr ∉ mylist :: ns :=
    fun hmem => hring.allocated hmem hfree
  have hring' := hring.store hnot (some f.list)
  have halloc : store s.list f.addr (some f.list) f.addr ≠ none := by
    rw [store_self]
    exact Option.some_ne_none f.list
  obtain ⟨list, hadd, hnew, -, hframe⟩ := hring'.listAdd hnot halloc
  let t : Kernel A :=
    { list := list
      id := fun q => if q = f.addr then some (i + 100 : Int) else s.id q
      log := s.log ++ [.addTheNode (i + 100)] }
  refine ⟨t, ?_, hnew, fun q => rfl, rfl, fun q hq => ?_⟩
  · have hid : (fun q => if q = f.addr then some (i + 100 : Int)
        else if q = f.addr then some f.id else s.id q) = t.id := by
      funext q
      by_cases hq : q = f.addr <;> simp [t, hq]
    simp [addNode, Kernel.setId, Kernel.kmalloc, Kernel.printk, hadd, hid, t]
  · have hqf : q ≠ f.addr := by
      rintro rfl
      simp at hq
    exact (hframe q hq).trans (store_ne _ hqf)

/-- The loop from round `i` on, as long as `kmalloc` succeeds. -/
theorem addNodes_spec {mylist : A} {fs : List (Fresh A)} {s : Kernel A}
    {ns : List A} (i : Nat) (hring : Ring s.list mylist ns)
    (hun : Unused s fs) :
    ∃ t, addNodes mylist i (fs.map some) s = some t ∧
      Ring t.list mylist ((fs.map Fresh.addr).reverse ++ ns) ∧
      (fs.map Fresh.addr).map t.id =
        (List.range' i fs.length).map (fun k : Nat => some (k + 100 : Int)) ∧
      (∀ q, q ∉ fs.map Fresh.addr → t.id q = s.id q) ∧
      t.log = s.log ++ (List.range' i fs.length).map
        (fun k : Nat => .addTheNode (k + 100)) ∧
      ∀ q, q ∉ mylist :: (fs.map Fresh.addr ++ ns) → t.list q = s.list q := by
  induction fs generalizing i s ns with
  | nil => exact ⟨s, rfl, hring, rfl, fun q _ => rfl, by simp, fun q _ => rfl⟩
  | cons f fs ih =>
      have hnodup := hun.nodup
      rw [List.map_cons, List.nodup_cons] at hnodup
      obtain ⟨t, hadd, hring', hid, hlog, hframe⟩ :=
        addNode_spec i hring (hun.free f List.mem_cons_self)
      have hun' : Unused t fs := by
        have hne : ∀ g ∈ fs, g.addr ≠ f.addr := by
          intro g hg heq
          exact hnodup.1 (heq ▸ List.mem_map_of_mem hg)
        refine ⟨hnodup.2, fun g hg => ?_, fun g hg => ?_⟩
        · have hfree := hun.free g (List.mem_cons_of_mem f hg)
          rw [hframe g.addr]
          · exact hfree
          · rw [List.mem_cons, List.mem_cons, not_or, not_or]
            refine ⟨?_, hne g hg, ?_⟩
            · intro heq
              exact hring.allocated List.mem_cons_self (heq ▸ hfree)
            · intro hmem
              exact hring.allocated (List.mem_cons_of_mem mylist hmem) hfree
        · rw [hid, if_neg (hne g hg)]
          exact hun.freeId g (List.mem_cons_of_mem f hg)
      obtain ⟨u, hrest, hring'', hids, hother, hlog', hframe'⟩ :=
        ih (i + 1) hring' hun'
      refine ⟨u, ?_, ?_, ?_, fun q hq => ?_, ?_, fun q hq => ?_⟩
      · simp only [List.map_cons, addNodes, hadd, Option.bind_eq_bind,
          Option.bind_some, hrest]
      · rw [List.map_cons, List.reverse_cons, List.append_assoc]
        exact hring''
      · rw [List.map_cons, List.map_cons, hids, List.length_cons,
          List.range'_succ, List.map_cons, hother f.addr hnodup.1, hid,
          if_pos rfl]
      · rw [List.map_cons, List.mem_cons, not_or] at hq
        rw [hother q hq.2, hid, if_neg hq.1]
      · rw [hlog', hlog, List.length_cons, List.range'_succ, List.map_cons,
          List.append_assoc]
        rfl
      · rw [List.map_cons, List.cons_append, List.mem_cons, List.mem_cons,
          not_or, not_or, List.mem_append, not_or] at hq
        rw [hframe' q, hframe q]
        · rw [List.mem_cons, List.mem_cons, not_or, not_or]
          exact ⟨hq.1, hq.2.1, hq.2.2.2⟩
        · rw [List.mem_cons, List.mem_append, List.mem_cons, not_or, not_or,
            not_or]
          exact ⟨hq.1, hq.2.2.1, hq.2.1, hq.2.2.2⟩

/-- A null pointer stops the loop with a fault, wherever it turns up. -/
theorem addNodes_none {mylist : A} {tmps : List (Option (Fresh A))}
    (h : none ∈ tmps) (i : Nat) (s : Kernel A) :
    addNodes mylist i tmps s = none := by
  induction tmps generalizing i s with
  | nil => simp at h
  | cons tmp tmps ih =>
      rw [addNodes, Option.bind_eq_bind, Option.bind_eq_none_iff]
      intro t ht
      rcases List.mem_cons.mp h with rfl | hmem
      · simp [addNode] at ht
      · exact ih hmem (i + 1) t

/-! ## Printing -/

/-- The lines of the `list_for_each` loop over nodes with these ids, the first
of which has number `i`. -/
def posLines (i : Nat) : List Int → List Line
  | [] => []
  | id :: ids => .pos i id :: posLines (i + 1) ids

theorem posLines_append (i : Nat) (xs ys : List Int) :
    posLines i (xs ++ ys) = posLines i xs ++ posLines (i + xs.length) ys := by
  induction xs generalizing i with
  | nil => rfl
  | cons x xs ih =>
      rw [List.cons_append, posLines, ih, posLines, List.length_cons,
        List.cons_append]
      congr 3
      omega

theorem printNodes_spec {mylist : A} {s : Kernel A} {ns : List A}
    {ids : List Int} {fuel : Nat} (hring : Ring s.list mylist ns)
    (hids : ns.map s.id = ids.map some) (hfuel : ns.length < fuel) :
    listForEach (fun s => s.1.list) mylist printNode fuel (s, 0) =
      some ({ s with log := s.log ++ posLines 0 ids }, ns.length) := by
  -- the nodes `done` and their lines are behind the loop
  let I : List A → List A → Kernel A × Nat → Prop := fun done _ r =>
    ∃ xs, done.map s.id = xs.map some ∧ r.2 = done.length ∧
      r.1 = { s with log := s.log ++ posLines 0 xs }
  have hstart : I [] ns (s, 0) := ⟨[], rfl, rfl, by simp [posLines]⟩
  have hrings : ∀ done ps r, I done ps r → Ring r.1.list mylist ns := by
    rintro done ps r ⟨xs, -, -, hs⟩
    rw [hs]
    exact hring
  have hbody : ∀ done p ps r, done ++ p :: ps = ns → I done (p :: ps) r →
      ∃ r', printNode p r = some r' ∧ I (done ++ [p]) ps r' := by
    rintro done p ps r hsplit ⟨xs, hxs, hcount, hs⟩
    have hp : ∃ id, s.id p = some id := by
      have hmem : s.id p ∈ ns.map s.id := by
        rw [← hsplit]
        exact List.mem_map_of_mem (List.mem_append_right done
          List.mem_cons_self)
      rw [hids, List.mem_map] at hmem
      obtain ⟨id, -, hid⟩ := hmem
      exact ⟨id, hid.symm⟩
    obtain ⟨id, hid⟩ := hp
    have hlen : xs.length = done.length := by
      have := congrArg List.length hxs
      simpa using this.symm
    refine ⟨(r.1.printk (.pos r.2 id), r.2 + 1), ?_, xs ++ [id], ?_, ?_, ?_⟩
    · rw [printNode, hs]
      simp [hid]
    · rw [List.map_append, List.map_append, hxs, List.map_singleton,
        List.map_singleton, hid]
    · rw [hcount, List.length_append, List.length_singleton]
    · rw [hs, posLines_append, hcount, hlen, Nat.zero_add,
        ← List.append_assoc]
      rfl
  obtain ⟨r, hr, xs, hxs, hcount, hs⟩ :=
    listForEach_spec (I := I) hrings hbody hstart hfuel
  have heq : xs = ids := by
    rw [hids] at hxs
    exact ((List.map_inj_right fun _ _ => Option.some.inj).mp hxs).symm
  rw [hr, Option.some.injEq, Prod.mk.injEq]
  subst heq
  exact ⟨hs, hcount⟩

/-! ## Unloading -/

/-- The lines of the `list_for_each_safe` loop. -/
def freeLines (i : Nat) : List Int → List Line
  | [] => []
  | id :: ids => .freePos i id :: freeLines (i + 1) ids

theorem freeLines_append (i : Nat) (xs ys : List Int) :
    freeLines i (xs ++ ys) =
      freeLines i xs ++ freeLines (i + xs.length) ys := by
  induction xs generalizing i with
  | nil => rfl
  | cons x xs ih =>
      rw [List.cons_append, freeLines, ih, freeLines, List.length_cons,
        List.cons_append]
      congr 3
      omega

/-- What the loop of `simple_linked_list_exit` has done to `s` when the nodes
`ps` are left of `ns`. -/
structure Freeing (s : Kernel A) (mylist : A) (ns : List A) (ids : List Int)
    (ps : List A) (r : Kernel A × Nat) : Prop where
  ring : Ring r.1.list mylist ps
  split : ∃ done xs ys, ns = done ++ ps ∧ ids = xs ++ ys ∧
    ps.map r.1.id = ys.map some ∧ xs.length = r.2 ∧
    r.1.log = s.log ++ freeLines 0 xs ∧
    ∀ q ∈ done, r.1.list q = none ∧ r.1.id q = none
  frame : ∀ q, q ∉ mylist :: ns → r.1.list q = s.list q ∧ r.1.id q = s.id q
  head : r.1.id mylist = s.id mylist

theorem freeNode_spec {s : Kernel A} {mylist p : A} {ns ps : List A}
    {ids : List Int} {r : Kernel A × Nat} (poison1 poison2 : A)
    (h : Freeing s mylist ns ids (p :: ps) r) :
    ∃ r', freeNode poison1 poison2 p r = some r' ∧
      Freeing s mylist ns ids ps r' := by
  obtain ⟨done, xs, ys, hns, hidsplit, hys, hcount, hlog, hdone⟩ := h.split
  have hnodup := h.ring.nodup
  rw [List.nodup_cons, List.nodup_cons, List.mem_cons, not_or] at hnodup
  cases ys with
  | nil => cases hys
  | cons id ys =>
      rw [List.map_cons, List.map_cons, List.cons.injEq] at hys
      have hfront : Ring r.1.list mylist ([] ++ p :: ps) := h.ring
      obtain ⟨list, hdel, hring, hnone, hframe⟩ :=
        hfront.listDel poison1 poison2
      have hp : list p ≠ none := by
        rw [ne_eq, hnone]
        exact h.ring.allocated (List.mem_cons_of_mem mylist List.mem_cons_self)
      obtain ⟨n, hn⟩ := Option.ne_none_iff_exists'.mp hp
      let t : Kernel A :=
        { list := store list p none
          id := fun q => if q = p then none else r.1.id q
          log := r.1.log ++ [.freePos r.2 id] }
      have hpns : p ∈ ns := by
        rw [hns]
        exact List.mem_append_right done List.mem_cons_self
      refine ⟨(t, r.2 + 1), ?_, ?_, ⟨done ++ [p], xs ++ [id], ys, ?_, ?_, ?_,
        ?_, ?_, ?_⟩, fun q hq => ?_, ?_⟩
      · simp [freeNode, hys.1, Kernel.printk, Kernel.kfree, hdel, hn, t]
      · apply hring.store
        rw [List.mem_cons, not_or]
        exact ⟨fun heq => hnodup.1.1 heq.symm, hnodup.2.1⟩
      · rw [hns, List.append_assoc]
        rfl
      · rw [hidsplit, List.append_assoc]
        rfl
      · rw [← hys.2]
        apply List.map_congr_left
        intro q hq
        apply if_neg
        rintro rfl
        exact hnodup.2.1 hq
      · rw [List.length_append, List.length_singleton, hcount]
      · rw [freeLines_append, hcount, Nat.zero_add, ← List.append_assoc,
          ← hlog]
        rfl
      · intro q hq
        by_cases hqp : q = p
        · subst hqp
          exact ⟨store_self _ _ _, if_pos rfl⟩
        · have hqd : q ∈ done := by
            rcases List.mem_append.mp hq with hqd | hqs
            · exact hqd
            · exact absurd (List.mem_singleton.mp hqs) hqp
          obtain ⟨hl, hi⟩ := hdone q hqd
          refine ⟨?_, (if_neg hqp).trans hi⟩
          exact (store_ne _ hqp).trans ((hnone q).mpr hl)
      · have hqp : q ≠ p := by
          rintro rfl
          exact hq (List.mem_cons_of_mem mylist hpns)
        have hqr : q ∉ mylist :: ([] ++ p :: ps) := by
          intro hmem
          apply hq
          rcases List.mem_cons.mp hmem with hqm | hqps
          · exact hqm ▸ List.mem_cons_self
          · rw [hns]
            exact List.mem_cons_of_mem mylist (List.mem_append_right done hqps)
        obtain ⟨hl, hi⟩ := h.frame q hq
        refine ⟨?_, (if_neg hqp).trans hi⟩
        exact (store_ne _ hqp).trans ((hframe q hqr).trans hl)
      · exact (if_neg hnodup.1.1).trans h.head

theorem simpleLinkedListExit_spec {s : Kernel A} {mylist : A} {ns : List A}
    {ids : List Int} {fuel : Nat} (poison1 poison2 : A)
    (hring : Ring s.list mylist ns) (hids : ns.map s.id = ids.map some)
    (hfuel : ns.length < fuel) :
    ∃ t, simpleLinkedListExit poison1 poison2 mylist fuel s = some t ∧
      Ring t.list mylist [] ∧
      t.log = s.log ++ .exitModule :: freeLines 0 ids ∧
      (∀ q ∈ ns, t.list q = none ∧ t.id q = none) ∧
      (∀ q, q ∉ mylist :: ns → t.list q = s.list q ∧ t.id q = s.id q) ∧
      t.id mylist = s.id mylist := by
  let s₁ := s.printk .exitModule
  have hstart : Freeing s₁ mylist ns ids ns (s₁, 0) := by
    refine ⟨hring, ⟨[], [], ids, rfl, rfl, hids, rfl, ?_, ?_⟩,
      fun q _ => ⟨rfl, rfl⟩, rfl⟩
    · exact (List.append_nil _).symm
    · intro q hq
      cases hq
  have hrings : ∀ ps r, Freeing s₁ mylist ns ids ps r →
      ∃ kept, Ring r.1.list mylist (kept ++ ps) :=
    fun ps r h => ⟨[], h.ring⟩
  obtain ⟨r, hr, hend⟩ :=
    listForEachSafe_spec (I := Freeing s₁ mylist ns ids) hrings
      (fun p ps r h => freeNode_spec poison1 poison2 h) hstart hring hfuel
  obtain ⟨done, xs, ys, hns, hsplit, hys, -, hlog, hdone⟩ := hend.split
  have hnil : ys = [] := List.map_eq_nil_iff.mp hys.symm
  rw [hnil, List.append_nil] at hsplit
  rw [List.append_nil] at hns
  subst hns hsplit
  refine ⟨r.1, ?_, hend.ring, ?_, hdone, hend.frame, hend.head⟩
  · exact Option.bind_eq_some_iff.mpr ⟨r, hr, rfl⟩
  · rw [hlog]
    exact List.append_assoc s.log [.exitModule] _

/-! ## Loading and unloading -/

/-- What loading the module prints. -/
def initLines : List Line :=
  [.initModule, .addTheNode 100, .addTheNode 101, .addTheNode 102,
    .addTheNode 103, .addTheNode 104, .useListForEach, .pos 0 104,
    .pos 1 103, .pos 2 102, .pos 3 101, .pos 4 100]

/-- What unloading it prints. -/
def exitLines : List Line :=
  [.exitModule, .freePos 0 104, .freePos 1 103, .freePos 2 102,
    .freePos 3 101, .freePos 4 100]

theorem simpleLinkedListInit_spec {s : Kernel A} {mylist : A}
    {tmps : Vector (Option (Fresh A)) 5} {fs : List (Fresh A)} {fuel : Nat}
    (hhead : s.list mylist ≠ none) (hun : Unused s fs)
    (hsome : tmps.toList = fs.map some) (hfuel : 5 < fuel) :
    ∃ t, simpleLinkedListInit mylist tmps fuel s = some t ∧
      Ring t.list mylist (fs.map Fresh.addr).reverse ∧
      (fs.map Fresh.addr).reverse.map t.id =
        [some 104, some 103, some 102, some 101, some 100] ∧
      t.log = s.log ++ initLines ∧
      (∀ q, q ∉ fs.map Fresh.addr → t.id q = s.id q) ∧
      ∀ q, q ∉ mylist :: fs.map Fresh.addr → t.list q = s.list q := by
  have hlen : fs.length = 5 := by
    have := congrArg List.length hsome
    simpa using this.symm
  obtain ⟨list, hinit, hempty, hframe⟩ := initListHead_spec hhead
  let s₁ : Kernel A := { s with log := s.log ++ [.initModule], list := list }
  have hne : ∀ f ∈ fs, f.addr ≠ mylist := by
    intro f hf heq
    exact hhead (heq ▸ hun.free f hf)
  have hun₁ : Unused s₁ fs := by
    refine ⟨hun.nodup, fun f hf => ?_, hun.freeId⟩
    exact (hframe f.addr (hne f hf)).trans (hun.free f hf)
  obtain ⟨t, hadd, hring, hids, hother, hlog, hrest⟩ :=
    addNodes_spec 0 (s := s₁) hempty hun₁
  rw [List.append_nil] at hring hrest
  let t₁ : Kernel A := t.printk .useListForEach
  have hids' : (fs.map Fresh.addr).reverse.map t₁.id =
      [104, 103, 102, 101, 100].map some := by
    rw [List.map_reverse]
    show ((fs.map Fresh.addr).map t.id).reverse = _
    rw [hids, hlen]
    rfl
  have hnodes : (fs.map Fresh.addr).reverse.length < fuel := by
    rw [List.length_reverse, List.length_map, hlen]
    exact hfuel
  have hprint := printNodes_spec (s := t₁) hring hids' hnodes
  let t₂ : Kernel A :=
    { t₁ with log := t₁.log ++ posLines 0 [104, 103, 102, 101, 100] }
  refine ⟨t₂, ?_, hring, hids', ?_, hother, fun q hq => ?_⟩
  · refine Option.bind_eq_some_iff.mpr ⟨list, hinit, ?_⟩
    rw [hsome]
    refine Option.bind_eq_some_iff.mpr ⟨t, hadd, ?_⟩
    exact Option.bind_eq_some_iff.mpr ⟨_, hprint, rfl⟩
  · show t.log ++ [.useListForEach] ++ posLines 0 [104, 103, 102, 101, 100] =
      s.log ++ initLines
    rw [hlog, hlen]
    simp only [s₁, List.append_assoc]
    rfl
  · have hqm : q ≠ mylist := by
      rintro rfl
      exact hq List.mem_cons_self
    exact (hrest q hq).trans (hframe q hqm)

/-- A null pointer from `kmalloc` crashes the loading.  Without one, loading
and unloading the module succeed whatever the addresses are and whatever new
memory contains: no step touches memory that is not allocated or frees a node
twice.  The list is read back newest first.  Afterwards the list is empty
again, and all other memory is as it was before the module was loaded. -/
theorem load_unload_restores_memory (poison1 poison2 mylist : A)
    (tmps : Vector (Option (Fresh A)) 5) (fuel : Nat) (s : Kernel A)
    (hhead : s.list mylist ≠ none)
    (hun : Unused s (tmps.toList.filterMap id)) (hfuel : 5 < fuel) :
    (simpleLinkedListInit mylist tmps fuel s = none ↔
        none ∈ tmps.toList) ∧
      ∀ t, simpleLinkedListInit mylist tmps fuel s = some t →
        t.log = s.log ++ initLines ∧
        ∃ u, simpleLinkedListExit poison1 poison2 mylist fuel t = some u ∧
          u.log = t.log ++ exitLines ∧ Ring u.list mylist [] ∧
          (∀ q, q ≠ mylist → u.list q = s.list q) ∧
          ∀ q, u.id q = s.id q := by
  have hnull : none ∈ tmps.toList →
      simpleLinkedListInit mylist tmps fuel s = none := by
    intro hmem
    rw [simpleLinkedListInit]
    simp only [Option.bind_eq_bind, Option.bind_eq_none_iff]
    intro list _ t ht
    rw [addNodes_none hmem] at ht
    cases ht
  have hall : none ∉ tmps.toList →
      tmps.toList = (tmps.toList.filterMap id).map some := by
    generalize tmps.toList = l
    intro hnot
    induction l with
    | nil => rfl
    | cons tmp l ih =>
        rw [List.mem_cons, not_or] at hnot
        obtain ⟨f, rfl⟩ := Option.ne_none_iff_exists'.mp (Ne.symm hnot.1)
        have hcons : (some f :: l).filterMap id = f :: l.filterMap id := rfl
        rw [hcons, List.map_cons, ← ih hnot.2]
  by_cases hmem : none ∈ tmps.toList
  · refine ⟨iff_of_true (hnull hmem) hmem, fun t ht => ?_⟩
    rw [hnull hmem] at ht
    cases ht
  · obtain ⟨t, ht, hring, hids, hlog, hid, hlist⟩ :=
      simpleLinkedListInit_spec hhead hun (hall hmem) hfuel
    refine ⟨iff_of_false (by rw [ht]; exact Option.some_ne_none t) hmem, ?_⟩
    intro t' ht'
    rw [ht, Option.some.injEq] at ht'
    subst ht'
    have hlen : (tmps.toList.filterMap id).length = 5 := by
      have := congrArg List.length (hall hmem)
      simpa using this.symm
    have hids' : ((tmps.toList.filterMap id).map Fresh.addr).reverse.map t.id =
        [104, 103, 102, 101, 100].map some := hids
    have hnodes :
        ((tmps.toList.filterMap id).map Fresh.addr).reverse.length < fuel := by
      rw [List.length_reverse, List.length_map, hlen]
      exact hfuel
    obtain ⟨u, hu, hempty, hlog', hfreed, hframe, hhead'⟩ :=
      simpleLinkedListExit_spec poison1 poison2 hring hids' hnodes
    have hcases : ∀ q, q ≠ mylist →
        u.list q = s.list q ∧ u.id q = s.id q := by
      intro q hq
      by_cases hnode : q ∈ (tmps.toList.filterMap id).map Fresh.addr
      · obtain ⟨hl, hi⟩ := hfreed q (List.mem_reverse.mpr hnode)
        obtain ⟨f, hf, rfl⟩ := List.mem_map.mp hnode
        rw [hl, hi, hun.free f hf, hun.freeId f hf]
        exact ⟨rfl, rfl⟩
      · have hout : q ∉
            mylist :: ((tmps.toList.filterMap id).map Fresh.addr).reverse := by
          rw [List.mem_cons, List.mem_reverse, not_or]
          exact ⟨hq, hnode⟩
        have hout' : q ∉
            mylist :: (tmps.toList.filterMap id).map Fresh.addr := by
          rw [List.mem_cons, not_or]
          exact ⟨hq, hnode⟩
        obtain ⟨hl, hi⟩ := hframe q hout
        exact ⟨hl.trans (hlist q hout'), hi.trans (hid q hnode)⟩
    refine ⟨hlog, u, hu, hlog', hempty, fun q hq => (hcases q hq).1,
      fun q => ?_⟩
    by_cases hq : q = mylist
    · subst hq
      rw [hhead']
      apply hid
      intro hnode
      obtain ⟨f, hf, hfq⟩ := List.mem_map.mp hnode
      exact hhead (hfq ▸ hun.free f hf)
    · exact (hcases q hq).2

/-- Nodes at the addresses 1 to 5, with the list at address 0. -/
def fiveNodes : Vector (Option (Fresh Nat)) 5 :=
  #v[some ⟨1, ⟨7, 7⟩, 0⟩, some ⟨2, ⟨7, 7⟩, 0⟩, some ⟨3, ⟨7, 7⟩, 0⟩,
    some ⟨4, ⟨7, 7⟩, 0⟩, some ⟨5, ⟨7, 7⟩, 0⟩]

/-- Only the list head is allocated. -/
def bareKernel : Kernel Nat :=
  ⟨store (fun _ => none) 0 (some ⟨0, 0⟩), fun _ => none, []⟩

theorem load_unload_restores_memory_fiveNodes :
    none ∉ fiveNodes.toList ∧
      ((simpleLinkedListInit 0 fiveNodes 6 bareKernel = none ↔
          none ∈ fiveNodes.toList) ∧
        ∀ t, simpleLinkedListInit 0 fiveNodes 6 bareKernel = some t →
          t.log = bareKernel.log ++ initLines ∧
          ∃ u, simpleLinkedListExit 8 9 0 6 t = some u ∧
            u.log = t.log ++ exitLines ∧ Ring u.list 0 [] ∧
            (∀ q, q ≠ 0 → u.list q = bareKernel.list q) ∧
            ∀ q, u.id q = bareKernel.id q) :=
  ⟨by decide, load_unload_restores_memory 8 9 0 fiveNodes 6 bareKernel
    (by decide) ⟨by decide, by decide, by decide⟩ (by decide)⟩

end EmbeddedSystem.Labs.SimpleLinkedList
