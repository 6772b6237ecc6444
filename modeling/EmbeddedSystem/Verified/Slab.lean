/-!
# Objects of the kernel allocator

`kmalloc` hands out an address that was never handed out before, so an
address stands for one object for good, and "freed twice" and "used after it
was freed" are properties of the object.  Addresses are numbers in the order
of allocation.  A slab keeps every object ever
allocated with its contents and the number of times it was freed.  It also
counts the accesses that met no live object; a program that respects its
allocator keeps that count at zero.

Contents survive `kfree` in the model.  Nothing is proved from that: every
access to a freed object is counted as stale.
-/

set_option autoImplicit false

namespace EmbeddedSystem.Verified

structure Slab.Obj (α : Type) where
  val : α
  frees : Nat
deriving DecidableEq, Repr

structure Slab (α : Type) where
  objs : List (Slab.Obj α)
  /-- loads and stores that met no live object -/
  stale : Nat
deriving DecidableEq, Repr

namespace Slab

variable {α : Type}

/-- Nothing is allocated. -/
def empty : Slab α := ⟨[], 0⟩

/-- The address that the next allocation returns. -/
def fresh (s : Slab α) : Nat := s.objs.length

/-- `p` is allocated and not freed. -/
def live (s : Slab α) (p : Nat) : Bool := s.objs[p]?.any (·.frees == 0)

/-- `kmalloc`: a new object; its contents are whatever was in memory. -/
def kmalloc (s : Slab α) (junk : α) : Slab α :=
  { s with objs := s.objs ++ [⟨junk, 0⟩] }

/-- `kfree`. -/
def kfree (s : Slab α) (p : Nat) : Slab α :=
  { s with objs := s.objs.modify p fun o => { o with frees := o.frees + 1 } }

/-- Account for one access through `p`. -/
def touch (s : Slab α) (p : Nat) : Slab α :=
  if s.live p then s else { s with stale := s.stale + 1 }

/-- The contents of the object at `p`, if there ever was one. -/
def get (s : Slab α) (p : Nat) : Option α := s.objs[p]?.map (·.val)

/-- Replace the contents of the object at `p`. -/
def put (s : Slab α) (p : Nat) (v : α) : Slab α :=
  { s with objs := s.objs.modify p fun o => { o with val := v } }

/-- A store to a part of the object at `p`. -/
def update (s : Slab α) (p : Nat) (f : α → α) : Slab α :=
  match s.get p with
  | none => s.touch p
  | some v => (s.touch p).put p (f v)

/-- How often the object at `p` was freed. -/
def freeCount (s : Slab α) (p : Nat) : Nat := (s.objs[p]?.map (·.frees)).getD 0

/-! ## Addresses -/

@[simp] theorem fresh_kmalloc (s : Slab α) (v : α) :
    (s.kmalloc v).fresh = s.fresh + 1 := by
  simp [fresh, kmalloc]

@[simp] theorem fresh_kfree (s : Slab α) (p : Nat) :
    (s.kfree p).fresh = s.fresh := by
  simp [fresh, kfree]

@[simp] theorem fresh_put (s : Slab α) (p : Nat) (v : α) :
    (s.put p v).fresh = s.fresh := by
  simp [fresh, put]

@[simp] theorem fresh_touch (s : Slab α) (p : Nat) :
    (s.touch p).fresh = s.fresh := by
  unfold touch
  split <;> rfl

/-! ## Contents -/

theorem get_eq_none_iff (s : Slab α) (p : Nat) :
    s.get p = none ↔ s.fresh ≤ p := by
  simp [get, fresh]

theorem lt_fresh_of_get {s : Slab α} {p : Nat} {v : α}
    (h : s.get p = some v) : p < s.fresh := by
  rcases Nat.lt_or_ge p s.fresh with hlt | hge
  · exact hlt
  · rw [(get_eq_none_iff s p).mpr hge] at h
    cases h

theorem get_kmalloc (s : Slab α) (v : α) (q : Nat) :
    (s.kmalloc v).get q = if q = s.fresh then some v else s.get q := by
  unfold get kmalloc fresh
  rcases Nat.lt_trichotomy q s.objs.length with hlt | heq | hgt
  · rw [List.getElem?_append_left hlt, if_neg (Nat.ne_of_lt hlt)]
  · subst heq
    simp
  · rw [List.getElem?_eq_none (by simp; omega), if_neg (by omega),
      List.getElem?_eq_none (by omega)]

theorem get_kmalloc_of_lt (s : Slab α) (v : α) {p : Nat}
    (h : p < s.fresh) : (s.kmalloc v).get p = s.get p := by
  rw [get_kmalloc, if_neg (Nat.ne_of_lt h)]

@[simp] theorem get_kfree (s : Slab α) (p q : Nat) :
    (s.kfree p).get q = s.get q := by
  simp only [get, kfree, List.getElem?_modify]
  cases s.objs[q]? with
  | none => rfl
  | some o => by_cases h : p = q <;> simp [h]

@[simp] theorem get_touch (s : Slab α) (p q : Nat) :
    (s.touch p).get q = s.get q := by
  unfold touch
  split <;> rfl

theorem get_put (s : Slab α) (p q : Nat) (v : α) :
    (s.put p v).get q =
      if p = q then (s.get q).map (fun _ => v) else s.get q := by
  simp only [get, put, List.getElem?_modify]
  cases s.objs[q]? with
  | none => simp
  | some o => by_cases h : p = q <;> simp [h]

theorem get_put_ne (s : Slab α) {p q : Nat} (v : α) (h : p ≠ q) :
    (s.put p v).get q = s.get q := by
  rw [get_put, if_neg h]

theorem get_put_self (s : Slab α) {p : Nat} (v : α) (h : p < s.fresh) :
    (s.put p v).get p = some v := by
  have hobj : s.objs[p]? = some s.objs[p] := List.getElem?_eq_getElem h
  rw [get_put, if_pos rfl, get, hobj]
  rfl

theorem get_update (s : Slab α) (p q : Nat) (f : α → α) :
    (s.update p f).get q = if p = q then (s.get q).map f else s.get q := by
  unfold update
  by_cases hq : p = q
  · subst hq
    rw [if_pos rfl]
    cases hv : s.get p with
    | none => rw [get_touch, hv, Option.map_none]
    | some v =>
        rw [get_put, if_pos rfl, get_touch, hv, Option.map_some,
          Option.map_some]
  · rw [if_neg hq]
    cases s.get p with
    | none => exact get_touch s p q
    | some v => rw [get_put_ne _ _ hq, get_touch]

/-! ## Life times -/

theorem lt_fresh_of_live {s : Slab α} {p : Nat} (h : s.live p = true) :
    p < s.fresh := by
  unfold live at h
  cases ho : s.objs[p]? with
  | none => simp [ho] at h
  | some o => exact (List.getElem?_eq_some_iff.mp ho).1

theorem live_fresh (s : Slab α) : s.live s.fresh = false := by
  simp [live, fresh]

@[simp] theorem live_put (s : Slab α) (p q : Nat) (v : α) :
    (s.put p v).live q = s.live q := by
  simp only [live, put, List.getElem?_modify]
  cases s.objs[q]? with
  | none => rfl
  | some o => by_cases h : p = q <;> simp [h]

@[simp] theorem live_touch (s : Slab α) (p q : Nat) :
    (s.touch p).live q = s.live q := by
  unfold touch
  split <;> rfl

theorem live_kmalloc (s : Slab α) (v : α) (q : Nat) :
    (s.kmalloc v).live q = (s.live q || q == s.fresh) := by
  unfold live kmalloc fresh
  rcases Nat.lt_trichotomy q s.objs.length with hlt | heq | hgt
  · rw [List.getElem?_append_left hlt]
    have hne : (q == s.objs.length) = false := by
      simpa using Nat.ne_of_lt hlt
    rw [hne, Bool.or_false]
  · subst heq
    simp
  · have hne : (q == s.objs.length) = false := by
      simpa using Nat.ne_of_gt hgt
    have hold : s.objs[q]? = none := List.getElem?_eq_none (by omega)
    have hnew : (s.objs ++ [⟨v, 0⟩])[q]? = none := by
      apply List.getElem?_eq_none
      simp
      omega
    rw [hold, hnew, hne]
    rfl

theorem live_kfree (s : Slab α) (p q : Nat) :
    (s.kfree p).live q = (s.live q && p != q) := by
  simp only [live, kfree, List.getElem?_modify]
  cases s.objs[q]? with
  | none => rfl
  | some o => by_cases h : p = q <;> simp [h]

@[simp] theorem fresh_update (s : Slab α) (p : Nat) (f : α → α) :
    (s.update p f).fresh = s.fresh := by
  unfold update
  cases s.get p with
  | none => exact fresh_touch s p
  | some v => rw [fresh_put, fresh_touch]

@[simp] theorem live_update (s : Slab α) (p q : Nat) (f : α → α) :
    (s.update p f).live q = s.live q := by
  unfold update
  cases s.get p with
  | none => exact live_touch s p q
  | some v => rw [live_put, live_touch]

/-! ## Counting frees -/

theorem freeCount_of_live {s : Slab α} {p : Nat} (h : s.live p = true) :
    s.freeCount p = 0 := by
  unfold live at h
  unfold freeCount
  cases ho : s.objs[p]? with
  | none => rfl
  | some o => simpa [ho] using h

@[simp] theorem freeCount_put (s : Slab α) (p q : Nat) (v : α) :
    (s.put p v).freeCount q = s.freeCount q := by
  simp only [freeCount, put, List.getElem?_modify]
  cases s.objs[q]? with
  | none => rfl
  | some o => by_cases h : p = q <;> simp [h]

@[simp] theorem freeCount_touch (s : Slab α) (p q : Nat) :
    (s.touch p).freeCount q = s.freeCount q := by
  unfold touch
  split <;> rfl

@[simp] theorem freeCount_kmalloc (s : Slab α) (v : α) (q : Nat) :
    (s.kmalloc v).freeCount q = s.freeCount q := by
  unfold freeCount kmalloc
  rcases Nat.lt_trichotomy q s.objs.length with hlt | heq | hgt
  · rw [List.getElem?_append_left hlt]
  · subst heq
    simp
  · rw [List.getElem?_eq_none (by omega : s.objs.length ≤ q),
      List.getElem?_eq_none (by simp; omega)]

theorem freeCount_kfree_self {s : Slab α} {p : Nat} (h : p < s.fresh) :
    (s.kfree p).freeCount p = s.freeCount p + 1 := by
  unfold fresh at h
  simp [freeCount, kfree, List.getElem?_eq_getElem h]

theorem freeCount_kfree_ne (s : Slab α) {p q : Nat} (h : p ≠ q) :
    (s.kfree p).freeCount q = s.freeCount q := by
  simp [freeCount, kfree, h]

/-! ## The live objects -/

/-- The live objects are those in the list. -/
def OnlyLive (s : Slab α) (ps : List Nat) : Prop :=
  ∀ q, s.live q = true ↔ q ∈ ps

theorem onlyLive_empty : OnlyLive (empty : Slab α) [] := by
  intro q
  simp [live, empty]

theorem OnlyLive.kmalloc {s : Slab α} {ps : List Nat} (h : OnlyLive s ps)
    (v : α) : OnlyLive (s.kmalloc v) (s.fresh :: ps) := by
  intro q
  rw [live_kmalloc, Bool.or_eq_true, beq_iff_eq, List.mem_cons, h q]
  exact or_comm

/-- A new object is none of the live ones. -/
theorem OnlyLive.fresh_notMem {s : Slab α} {ps : List Nat}
    (h : OnlyLive s ps) : s.fresh ∉ ps := by
  intro hmem
  have hlive := (h s.fresh).mpr hmem
  rw [live_fresh] at hlive
  cases hlive

theorem OnlyLive.put {s : Slab α} {ps : List Nat} (h : OnlyLive s ps)
    (p : Nat) (v : α) : OnlyLive (s.put p v) ps := by
  intro q
  rw [live_put]
  exact h q

theorem OnlyLive.kfree {s : Slab α} {p : Nat} {ps : List Nat}
    (h : OnlyLive s (p :: ps)) (hp : p ∉ ps) : OnlyLive (s.kfree p) ps := by
  intro q
  rw [live_kfree, Bool.and_eq_true, bne_iff_ne, h q, List.mem_cons]
  constructor
  · rintro ⟨rfl | hq, hne⟩
    · exact absurd rfl hne
    · exact hq
  · intro hq
    refine ⟨Or.inr hq, ?_⟩
    rintro rfl
    exact hp hq

/-! ## Programs that respect the allocator -/

/-- 1 for a live object. -/
def alive (s : Slab α) (p : Nat) : Nat := if s.live p = true then 1 else 0

@[simp] theorem alive_put (s : Slab α) (p q : Nat) (v : α) :
    (s.put p v).alive q = s.alive q := by
  simp [alive]

@[simp] theorem alive_touch (s : Slab α) (p q : Nat) :
    (s.touch p).alive q = s.alive q := by
  simp [alive]

theorem alive_le_one (s : Slab α) (p : Nat) : s.alive p ≤ 1 := by
  unfold alive
  split <;> omega

theorem live_of_alive_pos {s : Slab α} {p : Nat} (h : 0 < s.alive p) :
    s.live p = true := by
  unfold alive at h
  split at h
  · assumption
  · omega

theorem alive_kmalloc (s : Slab α) (v : α) (q : Nat) :
    (s.kmalloc v).alive q = s.alive q + if s.fresh = q then 1 else 0 := by
  unfold alive
  by_cases hq : s.fresh = q
  · subst hq
    simp [live_kmalloc, live_fresh]
  · have hne : q ≠ s.fresh := fun h => hq h.symm
    simp [live_kmalloc, hq, hne]

/-- Freeing a live object takes one off the number of live ones. -/
theorem alive_kfree {s : Slab α} {p : Nat} (h : s.live p = true) (q : Nat) :
    (s.kfree p).alive q + (if p = q then 1 else 0) = s.alive q := by
  unfold alive
  by_cases hq : p = q
  · subst hq
    simp [live_kfree, h]
  · simp [live_kfree, hq]

/-- No access met a dead object so far, and every object that is not live any
more was freed once. -/
structure Sound (s : Slab α) : Prop where
  stale : s.stale = 0
  once : ∀ p, p < s.fresh → s.live p = true ∨ s.freeCount p = 1

theorem sound_empty : Sound (empty : Slab α) :=
  ⟨rfl, fun p hp => absurd hp (Nat.not_lt_zero p)⟩

theorem Sound.freeCount_le_one {s : Slab α} (h : Sound s) (p : Nat) :
    s.freeCount p ≤ 1 := by
  rcases Nat.lt_or_ge p s.fresh with hlt | hge
  · rcases h.once p hlt with hlive | hfreed
    · rw [freeCount_of_live hlive]
      omega
    · omega
  · have hnone : s.objs[p]? = none := List.getElem?_eq_none hge
    simp [freeCount, hnone]

theorem touch_of_live {s : Slab α} {p : Nat} (h : s.live p = true) :
    s.touch p = s := if_pos h

theorem Sound.kmalloc {s : Slab α} (h : Sound s) (v : α) :
    Sound (s.kmalloc v) := by
  refine ⟨h.stale, fun p hp => ?_⟩
  rw [fresh_kmalloc] at hp
  rw [live_kmalloc, freeCount_kmalloc]
  rcases Nat.lt_or_ge p s.fresh with hlt | hge
  · exact (h.once p hlt).imp_left fun hlive => by rw [hlive, Bool.true_or]
  · have heq : p = s.fresh := by omega
    subst heq
    exact Or.inl (by simp)

theorem Sound.put {s : Slab α} (h : Sound s) (p : Nat) (v : α) :
    Sound (s.put p v) := by
  refine ⟨h.stale, fun q hq => ?_⟩
  rw [fresh_put] at hq
  rw [live_put, freeCount_put]
  exact h.once q hq

/-- So is a store to a part of a live object. -/
theorem Sound.update {s : Slab α} (h : Sound s) {p : Nat}
    (hp : s.live p = true) (f : α → α) : Sound (s.update p f) := by
  unfold Slab.update
  cases s.get p with
  | none =>
      rw [touch_of_live hp]
      exact h
  | some v =>
      rw [touch_of_live hp]
      exact h.put p (f v)

/-- Freeing is sound if the object is live. -/
theorem Sound.kfree {s : Slab α} (h : Sound s) {p : Nat}
    (hp : s.live p = true) : Sound (s.kfree p) := by
  refine ⟨h.stale, fun q hq => ?_⟩
  rw [fresh_kfree] at hq
  by_cases hpq : p = q
  · subst hpq
    rw [freeCount_kfree_self hq, freeCount_of_live hp]
    exact Or.inr rfl
  · rw [live_kfree, freeCount_kfree_ne s hpq]
    exact (h.once q hq).imp_left fun hlive => by simp [hlive, hpq]

end Slab

end EmbeddedSystem.Verified
