import EmbeddedSystem.Labs.Ch4Queue

/-!
# Every node of the ch4 queue is handed over at most once

The basis of all ordering arguments about the queue is an account of its
nodes.  A node that was ever allocated is in the hands of at most one
`ch4_write` that has not appended it yet, or was appended once, and never
both (`NodeAccount`).  It follows that the appended nodes are pairwise
different and that a writer is the only one to touch the node it prepares.
-/

set_option autoImplicit false

namespace EmbeddedSystem.Labs.Ch4Queue

open EmbeddedSystem.Verified
open EmbeddedSystem.Verified.CallPool

/-- The node a `ch4_write` has allocated and not (yet) appended. -/
def WritePc.newNode : WritePc → Option Nat
  | .allocMsg n => some n
  | .copy n => some n
  | .freeMsg n _ => some n
  | .freeNode n _ => some n
  | .lock n => some n
  | .allocNode => none
  | .wake => none
  | .returned _ => none

def Call.newNode : Call → Option Nat
  | .read _ => none
  | .write w => w.pc.newNode
  | .invalid _ => none

/-- 1 for the writer that is preparing node `p`. -/
def prepares (p : Nat) (l : Call) : Nat := if l.newNode = some p then 1 else 0

/-- How often node `p` was appended. -/
def Ch4.appends (g : Ch4) (p : Nat) : Nat := (g.appended.map (·.node)).count p

/-- 1 if `p` was ever returned by `kmalloc`. -/
def Ch4.allocated (g : Ch4) (p : Nat) : Nat :=
  if p < g.nodes.fresh then 1 else 0

/-- A node is appended once or prepared by one writer, and only after it was
allocated. -/
def NodeAccount (c : Conf) : Prop :=
  ∀ p, c.shared.appends p + total (prepares p) c.calls ≤ c.shared.allocated p

@[simp] theorem prepares_read (p : Nat) (r : ReadCall) :
    prepares p (.read r) = 0 := rfl

theorem prepares_ioctl (p : Nat) (k : Ioctl) : prepares p (ch4Ioctl k) = 0 := by
  unfold ch4Ioctl
  split
  · rfl
  · split <;> rfl

theorem prepares_of_newNode {p : Nat} {w : WriteCall}
    (h : w.pc.newNode = some p) : prepares p (.write w) = 1 :=
  if_pos h

theorem loaded_nodeAccount : NodeAccount loaded := by
  intro p
  simp [loaded, start, ch4Init, Ch4.appends]

/-- A read neither appends nor allocates a node. -/
theorem ReadStep.appends {g g' : Ch4} {i : Nat} {r r' : ReadCall}
    (h : ReadStep g i r g' r') (p : Nat) :
    g'.appends p = g.appends p ∧ g'.allocated p = g.allocated p := by
  cases h <;> simp [Ch4.appends, Ch4.allocated]

/-- What a write adds to the account of a node is covered by what it gives
up or newly allocates. -/
theorem WriteStep.account {g g' : Ch4} {i : Nat} {w w' : WriteCall}
    (h : WriteStep g i w g' w') (p : Nat) :
    g'.appends p + prepares p (.write w') + g.allocated p ≤
      g.appends p + prepares p (.write w) + g'.allocated p := by
  cases h with
  | noNode hpc =>
      simp [prepares, Call.newNode, hpc, WritePc.newNode]
  | allocNode hpc =>
      simp only [prepares, Call.newNode, hpc, WritePc.newNode, Ch4.appends,
        Ch4.allocated, Slab.fresh_kmalloc, Option.some.injEq, reduceCtorEq,
        if_false]
      have hnew : (if p < g.nodes.fresh + 1 then 1 else 0) =
          (if p < g.nodes.fresh then 1 else 0) +
            if g.nodes.fresh = p then 1 else 0 := by
        split <;> split <;> split <;> omega
      omega
  | noMsg n hpc =>
      simp [prepares, Call.newNode, hpc, WritePc.newNode, Ch4.appends,
        Ch4.allocated]
  | allocMsg n junk hpc =>
      simp [prepares, Call.newNode, hpc, WritePc.newNode, Ch4.appends,
        Ch4.allocated]
  | copied n b hpc hptr =>
      simp [prepares, Call.newNode, hpc, WritePc.newNode, Ch4.appends,
        Ch4.allocated]
  | faulted n b m hpc hptr =>
      simp [prepares, Call.newNode, hpc, WritePc.newNode, Ch4.appends,
        Ch4.allocated]
  | freeMsg n b code hpc hptr =>
      simp [prepares, Call.newNode, hpc, WritePc.newNode, Ch4.appends,
        Ch4.allocated]
  | freeNode n code hpc =>
      simp only [prepares, Call.newNode, hpc, WritePc.newNode, Ch4.appends,
        Ch4.allocated, Slab.fresh_kfree, reduceCtorEq, if_false]
      omega
  | append n m hpc hcont =>
      simp only [prepares, Call.newNode, hpc, WritePc.newNode, Ch4.appends,
        Ch4.allocated, Slab.fresh_touch, List.map_append, List.map_cons,
        List.map_nil, List.count_append, List.count_singleton, beq_iff_eq,
        Option.some.injEq, reduceCtorEq, if_false]
      omega
  | wake hpc =>
      simp [prepares, Call.newNode, hpc, WritePc.newNode, Ch4.appends,
        Ch4.allocated]

theorem nodeAccount_step (c : Conf) (mv : Move) (d : Conf)
    (h : NodeAccount c) (hst : step c mv = some d) : NodeAccount d := by
  intro p
  have hp := h p
  obtain ⟨k, -, rfl⟩ | ⟨i, o, l, g, l', -, hl, hb, rfl⟩ := step_cases hst
  · rw [total_append_one, prepares_ioctl]
    exact hp
  · have hset := total_set (prepares p) l' hl
    have hle := le_total (prepares p) hl
    obtain ⟨r, r', rfl, rfl, hr⟩ | ⟨w, w', rfl, rfl, hw⟩ := ch4Step_cases hb
    · obtain ⟨happ, halloc⟩ := hr.appends p
      rw [prepares_read, prepares_read] at hset
      simp only at hset ⊢
      omega
    · have hacc := hw.account p
      simp only at hset hacc ⊢
      omega

/-! ## What the account gives -/

theorem allocated_le_one (g : Ch4) (p : Nat) : g.allocated p ≤ 1 := by
  unfold Ch4.allocated
  split <;> omega

/-- No node is appended twice. -/
theorem NodeAccount.nodup {c : Conf} (h : NodeAccount c) :
    (c.shared.appended.map (·.node)).Nodup := by
  rw [List.nodup_iff_count]
  intro p
  have hp := h p
  have hle := allocated_le_one c.shared p
  unfold Ch4.appends at hp
  omega

/-- The node a writer is preparing was not appended. -/
theorem NodeAccount.not_appended {c : Conf} (h : NodeAccount c) {i : Nat}
    {w : WriteCall} {n : Nat} (hl : c.calls[i]? = some (.write w))
    (hn : w.pc.newNode = some n) :
    n ∉ c.shared.appended.map (·.node) := by
  intro hmem
  have hcount : 0 < c.shared.appends n := List.count_pos_iff.mpr hmem
  have hw := prepares_of_newNode hn
  have hle := le_total (prepares n) hl
  have hacc := h n
  have hone := allocated_le_one c.shared n
  omega

/-- Two writers never prepare the same node. -/
theorem NodeAccount.newNode_ne {c : Conf} (h : NodeAccount c) {i j : Nat}
    {v w : WriteCall} {m n : Nat} (hij : i ≠ j)
    (hi : c.calls[i]? = some (.write v)) (hj : c.calls[j]? = some (.write w))
    (hm : v.pc.newNode = some m) (hn : w.pc.newNode = some n) : m ≠ n := by
  rintro rfl
  have hv := prepares_of_newNode hm
  have hw := prepares_of_newNode hn
  have hle := add_le_total (prepares m) hij hi hj
  have hacc := h m
  have hone := allocated_le_one c.shared m
  omega

end EmbeddedSystem.Labs.Ch4Queue
