/-!
# Interrupt lines

The kernel keeps a disable depth for every interrupt line.  `disable_irq`
increments it.  `enable_irq` decrements it when it is positive and otherwise
only warns about an unbalanced enable, so the depth saturates at zero and one
enable too many is forgotten.  Requesting a line that nobody uses starts it
with depth 0, freeing it shuts it down.
-/

set_option autoImplicit false

namespace EmbeddedSystem.Verified

/-- One interrupt line: whether a handler is installed, the disable depth and
the number of unbalanced enables the kernel has warned about. -/
structure IrqLine where
  handled : Bool
  depth : Nat
  unbalanced : Nat
deriving DecidableEq, Repr

namespace IrqLine

/-- A line that nobody has requested. -/
def unused : IrqLine := ⟨false, 1, 0⟩

/-- `request_irq`, when it succeeds. -/
def requestIrq (line : IrqLine) : IrqLine :=
  { line with handled := true, depth := 0 }

/-- `free_irq`.  Freeing a line without a handler only warns. -/
def freeIrq (line : IrqLine) : IrqLine :=
  if line.handled then { line with handled := false, depth := 1 } else line

/-- `disable_irq`. -/
def disableIrq (line : IrqLine) : IrqLine :=
  { line with depth := line.depth + 1 }

/-- `enable_irq`. -/
def enableIrq (line : IrqLine) : IrqLine :=
  if line.depth = 0 then { line with unbalanced := line.unbalanced + 1 }
  else { line with depth := line.depth - 1 }

/-- An interrupt is delivered. -/
def enabled (line : IrqLine) : Bool := line.handled && line.depth == 0

@[simp] theorem depth_disableIrq (line : IrqLine) :
    line.disableIrq.depth = line.depth + 1 := rfl

@[simp] theorem handled_disableIrq (line : IrqLine) :
    line.disableIrq.handled = line.handled := rfl

/-- Enabling saturates. -/
@[simp] theorem depth_enableIrq (line : IrqLine) :
    line.enableIrq.depth = line.depth - 1 := by
  unfold enableIrq
  by_cases h : line.depth = 0
  · rw [if_pos h]
    show line.depth = line.depth - 1
    omega
  · rw [if_neg h]

@[simp] theorem handled_enableIrq (line : IrqLine) :
    line.enableIrq.handled = line.handled := by
  unfold enableIrq
  split <;> rfl

@[simp] theorem handled_freeIrq (line : IrqLine) :
    line.freeIrq.handled = false := by
  unfold freeIrq
  by_cases h : line.handled = true
  · rw [if_pos h]
  · rw [if_neg h]
    simpa using h

theorem handled_of_enabled {line : IrqLine} (h : line.enabled = true) :
    line.handled = true := by
  simp only [enabled, Bool.and_eq_true] at h
  exact h.1

theorem depth_of_enabled {line : IrqLine} (h : line.enabled = true) :
    line.depth = 0 := by
  simp only [enabled, Bool.and_eq_true, beq_iff_eq] at h
  exact h.2

theorem enabled_iff {line : IrqLine} (h : line.handled = true) :
    line.enabled = true ↔ line.depth = 0 := by
  simp [enabled, h]

end IrqLine

end EmbeddedSystem.Verified
