import EmbeddedSystem.Verified.CallPool

/-!
# Work queues

Items wait in a queue until a worker takes one and runs its function; any
number of workers run at once, and take the items in any order.  A worker
that is done stays in the list, so that the list tells how often an item was
run.

What keeps an item from being run twice is the ledger of `places`: the queue
and the workers together hold it at most once.
-/

set_option autoImplicit false

namespace EmbeddedSystem.Verified

open EmbeddedSystem.Verified.CallPool

/-- A run of a work function, by the item that it was called with. -/
structure Worker (P : Type) where
  item : Nat
  pc : P
deriving DecidableEq, Repr

/-- 1 for a worker with item `p`. -/
def Worker.has {P : Type} (p : Nat) (w : Worker P) : Nat :=
  if w.item = p then 1 else 0

structure Workqueue (P : Type) where
  queue : List Nat
  workers : List (Worker P)
deriving DecidableEq, Repr

namespace Workqueue

variable {P : Type}

/-- `create_workqueue` -/
def createWorkqueue : Workqueue P := ⟨[], []⟩

/-- `queue_work`.  An item that is in the queue is not queued again. -/
def queueWork (q : Workqueue P) (p : Nat) : Workqueue P :=
  if p ∈ q.queue then q else { q with queue := q.queue ++ [p] }

/-- A worker takes item `p`. -/
def start (first : P) (q : Workqueue P) (p : Nat) : Option (Workqueue P) :=
  if p ∈ q.queue then
    some ⟨q.queue.erase p, q.workers ++ [⟨p, first⟩]⟩
  else none

theorem start_cases {first : P} {q q' : Workqueue P} {p : Nat}
    (h : q.start first p = some q') :
    p ∈ q.queue ∧ q' = ⟨q.queue.erase p, q.workers ++ [⟨p, first⟩]⟩ := by
  unfold start at h
  by_cases hp : p ∈ q.queue
  · rw [if_pos hp, Option.some.injEq] at h
    exact ⟨hp, h.symm⟩
  · rw [if_neg hp] at h
    cases h

/-- Worker `i`, which has item `p`, goes on to `pc`. -/
def goOn (q : Workqueue P) (i p : Nat) (pc : P) : Workqueue P :=
  { q with workers := q.workers.set i ⟨p, pc⟩ }

/-- How often item `p` was run. -/
def executions (q : Workqueue P) (p : Nat) : Nat :=
  total (Worker.has p) q.workers

/-- In how many places item `p` is or has been. -/
def places (q : Workqueue P) (p : Nat) : Nat :=
  q.queue.count p + q.executions p

theorem executions_le_places (q : Workqueue P) (p : Nat) :
    q.executions p ≤ q.places p :=
  Nat.le_add_left _ _

theorem executions_pos {q : Workqueue P} {i : Nat} {w : Worker P}
    (h : q.workers[i]? = some w) : 0 < q.executions w.item := by
  have hle := le_total (Worker.has w.item) h
  unfold Worker.has at hle
  rw [if_pos rfl] at hle
  exact hle

theorem places_pos_of_queued {q : Workqueue P} {p : Nat} (h : p ∈ q.queue) :
    0 < q.places p := by
  have hcount := List.count_pos_iff.mpr h
  unfold places
  omega

/-- A new item takes a place. -/
theorem places_queueWork {q : Workqueue P} {p : Nat} (h : p ∉ q.queue)
    (r : Nat) :
    (q.queueWork p).places r = q.places r + if p = r then 1 else 0 := by
  unfold queueWork places executions
  rw [if_neg h]
  by_cases hr : p = r
  · subst hr
    simp
    omega
  · simp [hr]

/-- A worker that takes an item leaves it in one place. -/
theorem places_start {first : P} {q q' : Workqueue P} {p : Nat}
    (h : q.start first p = some q') (r : Nat) :
    q'.places r = q.places r := by
  obtain ⟨hp, rfl⟩ := start_cases h
  unfold places executions
  rw [total_append_one, Worker.has]
  by_cases hr : p = r
  · subst hr
    have hpos := List.count_pos_iff.mpr hp
    simp
    omega
  · simp [hr, List.count_erase_of_ne (fun h => hr h.symm)]

/-- So does a worker that goes on. -/
theorem places_goOn {q : Workqueue P} {i : Nat} {w : Worker P}
    (h : q.workers[i]? = some w) (pc : P) (r : Nat) :
    (q.goOn i w.item pc).places r = q.places r := by
  have hset := total_set (Worker.has r) ⟨w.item, pc⟩ h
  have hsame : Worker.has r (⟨w.item, pc⟩ : Worker P) = Worker.has r w := rfl
  unfold places executions goOn
  dsimp only
  omega

end Workqueue

end EmbeddedSystem.Verified
