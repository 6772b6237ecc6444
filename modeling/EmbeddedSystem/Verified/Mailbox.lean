/-!
# A mailbox with one slot

The slot holds one message at a time: a put overwrites what lies there, and a
take hands it to a receiver and leaves the slot empty.  What is overwritten
is lost.  What is left of the posted letters is delivered in their order and
waits in the slot (`letters_after`), so nothing is delivered that was not
posted, and nothing is delivered twice (`delivered_once`).
-/

set_option autoImplicit false

namespace EmbeddedSystem.Verified.Mailbox

variable {α : Type}

/-- A message and the number of its sender. -/
structure Letter (α : Type) where
  sender : Nat
  msg : α
deriving DecidableEq, Repr

/-- The slot, and who was handed which letter. -/
structure Box (α : Type) where
  slot : Option (Letter α)
  delivered : List (Letter α × Nat)
deriving DecidableEq, Repr

inductive Op (α : Type) where
  | put (m : Letter α)
  | take (receiver : Nat)
deriving DecidableEq, Repr

def Box.apply (b : Box α) : Op α → Box α
  | .put m => { b with slot := some m }
  | .take receiver =>
      match b.slot with
      | none => b
      | some m => ⟨none, b.delivered ++ [(m, receiver)]⟩

/-- What becomes of an empty mailbox. -/
def after (ops : List (Op α)) : Box α :=
  ops.foldl Box.apply ⟨none, []⟩

@[simp] theorem after_concat (ops : List (Op α)) (op : Op α) :
    after (ops ++ [op]) = (after ops).apply op := by
  rw [after, List.foldl_append]
  rfl

theorem slot_take (b : Box α) (receiver : Nat) :
    (b.apply (.take receiver)).slot = none := by
  unfold Box.apply
  cases hslot : b.slot with
  | none => exact hslot
  | some m => rfl

/-- A take delivers what lies in the slot, if anything. -/
theorem mem_delivered_take {b : Box α} {receiver : Nat}
    {d : Letter α × Nat} :
    d ∈ (b.apply (.take receiver)).delivered ↔
      d ∈ b.delivered ∨ ∃ m, b.slot = some m ∧ d = (m, receiver) := by
  cases hslot : b.slot with
  | none => simp [Box.apply, hslot]
  | some m => simp [Box.apply, hslot]

/-! ## Letters are delivered at most once -/

/-- The letter that an operation posts. -/
def Op.letter : Op α → Option (Letter α)
  | .put m => some m
  | .take _ => none

def posted (ops : List (Op α)) : List (Letter α) := ops.filterMap Op.letter

/-- The letters that were delivered, and then the one in the slot. -/
def Box.letters (b : Box α) : List (Letter α) :=
  b.delivered.map Prod.fst ++ b.slot.toList

theorem letters_apply (b : Box α) (op : Op α) :
    (b.apply op).letters.Sublist (b.letters ++ op.letter.toList) := by
  cases op with
  | put m =>
      -- The letter that lay in the slot is dropped.
      show (b.delivered.map Prod.fst ++ [m]).Sublist
        (b.delivered.map Prod.fst ++ b.slot.toList ++ [m])
      exact (List.sublist_append_left _ _).append_right [m]
  | take receiver =>
      cases hslot : b.slot with
      | none => simp [Box.apply, hslot, Op.letter]
      | some m => simp [Box.apply, Box.letters, hslot, Op.letter]

theorem letters_foldl (ops : List (Op α)) (b : Box α) :
    (ops.foldl Box.apply b).letters.Sublist
      (b.letters ++ posted ops) := by
  induction ops generalizing b with
  | nil => simp [posted]
  | cons op ops ih =>
      have hposted : posted (op :: ops) = op.letter.toList ++ posted ops := by
        cases op <;> rfl
      rw [hposted, ← List.append_assoc]
      exact (ih (b.apply op)).trans ((letters_apply b op).append_right _)

/-- The letters in the mailbox and those it has delivered are some of the
posted ones, in their order. -/
theorem letters_after (ops : List (Op α)) :
    (after ops).letters.Sublist (posted ops) :=
  letters_foldl ops ⟨none, []⟩

/-- A delivered letter was posted. -/
theorem delivered_posted {ops : List (Op α)} {m : Letter α} {i : Nat}
    (h : (m, i) ∈ (after ops).delivered) : m ∈ posted ops := by
  apply (letters_after ops).subset
  exact List.mem_append_left _ (List.mem_map.mpr ⟨(m, i), h, rfl⟩)

/-- Of senders that post one letter each, none has it delivered twice. -/
theorem delivered_once {ops : List (Op α)}
    (h : ((posted ops).map Letter.sender).Nodup) :
    ((after ops).delivered.map fun d => d.1.sender).Nodup := by
  have hsub : ((after ops).delivered.map Prod.fst).Sublist (posted ops) :=
    (List.sublist_append_left _ _).trans (letters_after ops)
  have hmap := hsub.map Letter.sender
  rw [List.map_map] at hmap
  exact h.sublist hmap

end EmbeddedSystem.Verified.Mailbox
