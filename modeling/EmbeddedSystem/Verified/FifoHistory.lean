import EmbeddedSystem.Verified.Transition

/-!
# Histories of a FIFO queue

A concurrent queue is used by many callers, but what its locked sections do
happens in one order.  Written down in that order, the operations are a
history of a sequential queue: `Legal` says that each of them is what a FIFO
queue would have answered at that point, and what the queue holds afterwards.
`opsOf` picks out what one caller has done.
-/

set_option autoImplicit false

namespace EmbeddedSystem.Verified.FifoHistory

open EmbeddedSystem.Verified.Transition

variable {α : Type}

/-- An operation of caller `who`: a message goes in or comes out, or the
queue is found empty. -/
inductive Op (α : Type) where
  | enqueue (who : Nat) (m : α)
  | dequeue (who : Nat) (m : α)
  | empty (who : Nat)
deriving DecidableEq, Repr

/-- The caller. -/
def Op.who : Op α → Nat
  | .enqueue who _ => who
  | .dequeue who _ => who
  | .empty who => who

/-! ## One caller's operations -/

/-- What one caller has done. -/
def opsOf (who : Nat) (ops : List (Op α)) : List (Op α) :=
  ops.filter fun op => op.who = who

theorem opsOf_append (who : Nat) (xs ys : List (Op α)) :
    opsOf who (xs ++ ys) = opsOf who xs ++ opsOf who ys :=
  List.filter_append xs ys

/-- The caller's first operation. -/
theorem opsOf_first {who : Nat} {op : Op α} {ops : List (Op α)}
    (h : op.who = who) (hnone : opsOf who ops = []) :
    opsOf who (ops ++ [op]) = [op] := by
  rw [opsOf_append, hnone]
  simp [opsOf, h]

/-- An operation of somebody else. -/
theorem opsOf_concat_ne {who : Nat} {op : Op α} (ops : List (Op α))
    (h : op.who ≠ who) : opsOf who (ops ++ [op]) = opsOf who ops := by
  rw [opsOf_append]
  simp [opsOf, h]

theorem mem_opsOf {ops : List (Op α)} {op : Op α} (h : op ∈ ops) :
    op ∈ opsOf op.who ops :=
  List.mem_filter.mpr ⟨h, decide_eq_true rfl⟩

/-! ## Legal histories -/

variable [DecidableEq α]

/-- The sequential queue; an answer it would not give is refused. -/
def apply (q : List α) : Op α → Option (List α)
  | .enqueue _ m => some (q ++ [m])
  | .dequeue _ m =>
      match q with
      | [] => none
      | first :: rest => if first = m then some rest else none
  | .empty _ => if q.isEmpty then some [] else none

/-- The operations are those of a queue that was empty at first and holds `q`
at the end. -/
def Legal (ops : List (Op α)) (q : List α) : Prop := run apply [] ops = some q

theorem legal_nil : Legal ([] : List (Op α)) [] := rfl

theorem Legal.concat {ops : List (Op α)} {q q' : List α} {op : Op α}
    (h : Legal ops q) (hop : apply q op = some q') :
    Legal (ops ++ [op]) q' := by
  unfold Legal at *
  rw [run_append, h]
  exact run_single hop

theorem Legal.enqueue {ops : List (Op α)} {q : List α} (h : Legal ops q)
    (who : Nat) (m : α) : Legal (ops ++ [.enqueue who m]) (q ++ [m]) :=
  h.concat rfl

theorem Legal.dequeue {ops : List (Op α)} {q : List α} {m : α}
    (h : Legal ops (m :: q)) (who : Nat) :
    Legal (ops ++ [.dequeue who m]) q :=
  h.concat (if_pos rfl)

theorem Legal.empty {ops : List (Op α)} (h : Legal ops []) (who : Nat) :
    Legal (ops ++ [.empty who]) [] :=
  h.concat rfl

/-- The last operation was one on the queue before it. -/
theorem Legal.last {ops : List (Op α)} {q q' : List α} {op : Op α}
    (h : Legal ops q) (h' : Legal (ops ++ [op]) q') :
    apply q op = some q' := by
  unfold Legal at *
  rw [run_append, h, Option.bind_some, run_cons] at h'
  obtain ⟨m, hm, hrest⟩ := Option.bind_eq_some_iff.mp h'
  exact hm.trans hrest

/-- What came out was the first message. -/
theorem Legal.last_dequeue {ops : List (Op α)} {q q' : List α} {who : Nat}
    {m : α} (h : Legal ops q) (h' : Legal (ops ++ [.dequeue who m]) q') :
    q = m :: q' := by
  have hlast := h.last h'
  cases q with
  | nil => cases hlast
  | cons first rest =>
      simp only [apply] at hlast
      split at hlast
      case isTrue hm =>
        cases hlast
        rw [hm]
      case isFalse => cases hlast

/-- Whoever found the queue empty was right. -/
theorem Legal.last_empty {ops : List (Op α)} {q q' : List α} {who : Nat}
    (h : Legal ops q) (h' : Legal (ops ++ [.empty who]) q') :
    q = [] ∧ q' = [] := by
  have hlast := h.last h'
  simp only [apply] at hlast
  split at hlast
  case isTrue hq =>
    cases hlast
    exact ⟨List.isEmpty_iff.mp hq, rfl⟩
  case isFalse => cases hlast

/-- Every message in the queue was put there. -/
theorem mem_enqueued {ops : List (Op α)} {q : List α} {m : α}
    (h : Legal ops q) (hm : m ∈ q) : ∃ who, .enqueue who m ∈ ops := by
  have hall : ∀ {ops : List (Op α)} {q0 q : List α},
      run apply q0 ops = some q → m ∈ q →
      m ∈ q0 ∨ ∃ who, .enqueue who m ∈ ops := by
    intro ops
    induction ops with
    | nil =>
        intro q0 q hrun hm
        rw [run_nil, Option.some.injEq] at hrun
        exact Or.inl (hrun ▸ hm)
    | cons op ops ih =>
        intro q0 q hrun hm
        obtain ⟨q1, hop, hrest⟩ := run_cons_some hrun
        rcases ih hrest hm with hmem | ⟨who, hin⟩
        · cases op with
          | enqueue who m' =>
              cases hop
              rcases List.mem_append.mp hmem with hold | hnew
              · exact Or.inl hold
              · rw [List.mem_singleton.mp hnew]
                exact Or.inr ⟨who, List.mem_cons_self⟩
          | dequeue who m' =>
              simp only [apply] at hop
              split at hop
              · cases hop
              · split at hop
                · cases hop
                  exact Or.inl (List.mem_cons_of_mem _ hmem)
                · cases hop
          | empty who =>
              simp only [apply] at hop
              split at hop
              · cases hop
                cases hmem
              · cases hop
        · exact Or.inr ⟨who, List.mem_cons_of_mem op hin⟩
  rcases hall h hm with hnil | hin
  · cases hnil
  · exact hin

end EmbeddedSystem.Verified.FifoHistory
