/-!
# Walking a list that changes

`list_for_each_safe` reads the link of a node before it works on the node, so
that the node may be taken out of the list.  A list is the addresses of its
nodes in order; the links of a node that was taken out are poisoned.

The nodes of a list that only grows are numbered in order, so that such a
list, less what was taken off its front, is a `List.range'`
(`visit_range'`).
-/

set_option autoImplicit false

namespace EmbeddedSystem.Verified.ListWalk

/-- `p->next`; `none` is the list head. -/
def next (list : List Nat) (p : Nat) : Option Nat :=
  ((list.dropWhile (· != p)).drop 1).head?

/-- `pos` and `q` after `pos = p, q = pos->next`: `some none` is the end of
the loop, and `none` a poisoned link. -/
def visit (list : List Nat) :
    Option Nat → Option (Option (Nat × Option Nat))
  | none => some none
  | some p => if p ∈ list then some (some (p, next list p)) else none

/-- The node behind node `i`, if there is one. -/
def behind (first len i : Nat) : Option Nat :=
  if i < len then some (first + i) else none

/-- The rest of the nodes, numbered from its own front. -/
theorem behind_succ (first len i : Nat) :
    behind first (len + 1) (i + 1) = behind (first + 1) len i := by
  unfold behind
  by_cases hi : i < len
  · have hsum : first + (i + 1) = first + 1 + i := by omega
    rw [if_pos (Nat.succ_lt_succ hi), if_pos hi, hsum]
  · rw [if_neg (by omega), if_neg hi]

theorem head?_range' (s n : Nat) : (List.range' s n).head? = behind s n 0 := by
  cases n with
  | zero => rfl
  | succ n => rfl

theorem next_range' {s n i : Nat} (h : i < n) :
    next (List.range' s n) (s + i) = behind s n (i + 1) := by
  induction n generalizing s i with
  | zero => exact absurd h (Nat.not_lt_zero i)
  | succ n ih =>
      rw [List.range'_succ]
      cases i with
      | zero =>
          have hstop : (s :: List.range' (s + 1) n).dropWhile (· != s + 0) =
              s :: List.range' (s + 1) n :=
            List.dropWhile_cons_of_neg (by simp)
          rw [next, hstop, List.drop_one, List.tail_cons, head?_range',
            behind_succ]
      | succ i =>
          have hgo : (s :: List.range' (s + 1) n).dropWhile
              (· != s + (i + 1)) =
              (List.range' (s + 1) n).dropWhile (· != s + (i + 1)) :=
            List.dropWhile_cons_of_pos (by simp)
          have hrec := ih (s := s + 1) (i := i) (by omega)
          have hsum : s + 1 + i = s + (i + 1) := by omega
          rw [hsum] at hrec
          unfold next at hrec ⊢
          rw [hgo, hrec, behind_succ]

/-- One round of the loop over numbered nodes. -/
theorem visit_range' (s n i : Nat) :
    visit (List.range' s n) (behind s n i) =
      some (if i < n then some (s + i, behind s n (i + 1)) else none) := by
  unfold behind
  by_cases hi : i < n
  · rw [if_pos hi, if_pos hi]
    have hmem : s + i ∈ List.range' s n := by
      rw [List.mem_range'_1]
      omega
    rw [visit, if_pos hmem, next_range' hi]
    rfl
  · rw [if_neg hi, if_neg hi]
    rfl

end EmbeddedSystem.Verified.ListWalk
