import EmbeddedSystem.Verified.IrqLine
import EmbeddedSystem.Verified.Transition

/-!
# Sensors whose interrupt follows the open files

`simple_sensor.c` and `spin_interrupt.c` request the sensor's interrupt at
load and disable it at once; every open enables the line and every release
disables it.  What else they do at these points differs.  `Handlers` says
what the two have in common, and everything about the line is proved once for
all modules of that kind.

The line's depth saturates, so the second of two overlapping opens leaves no
trace in it, and the first of the two releases switches the line off under
the file that is still open.  `enabled_iff_releasedLast` says that this is
the only way to go wrong.
-/

set_option autoImplicit false

namespace EmbeddedSystem.Labs.SensorIrq

open EmbeddedSystem.Verified
open EmbeddedSystem.Verified.Transition

/-! ## Modules that enable their interrupt while a file is open -/

/-- The interrupt line of a module and its own data. -/
structure Device (D : Type) where
  line : IrqLine
  data : D
deriving DecidableEq, Repr

/-- A module's file operations and its interrupt handler; the number is the
time of day.  Opening enables the line, releasing disables it, and the
handler leaves it alone. -/
structure Handlers (D : Type) where
  onOpen : Int → Device D → Device D
  onRelease : Device D → Device D
  isr : Int → Device D → Device D
  line_onOpen : ∀ now d, (onOpen now d).line = d.line.enableIrq
  line_onRelease : ∀ d, (onRelease d).line = d.line.disableIrq
  line_isr : ∀ now d, (isr now d).line = d.line

/-- A loaded module: its device, the open files and how many were opened so
far. -/
structure Sensor (D : Type) where
  device : Device D
  files : List Nat
  opened : Nat
deriving DecidableEq, Repr

/-- What can happen to a loaded module.  The files are numbered in the order
in which they are opened. -/
inductive Event where
  | openFile (now : Int)
  | releaseFile (file : Nat)
  | interrupt (now : Int)
deriving DecidableEq, Repr

variable {D : Type}

/-- One event.  Only an open file is released, and only an enabled line
interrupts. -/
def step (m : Handlers D) (s : Sensor D) : Event → Option (Sensor D)
  | .openFile now =>
      some
        { device := m.onOpen now s.device
          files := s.opened :: s.files
          opened := s.opened + 1 }
  | .releaseFile file =>
      if file ∈ s.files then
        some
          { s with
            device := m.onRelease s.device
            files := s.files.erase file }
      else none
  | .interrupt now =>
      if s.device.line.enabled then
        some { s with device := m.isr now s.device }
      else none

/-- The interrupt set-up of `init`: `ret` is the result of `request_irq`. -/
def initIrq (ret : Int) : IrqLine :=
  if ret ≠ 0 then IrqLine.unused.freeIrq
  else IrqLine.unused.requestIrq.disableIrq

/-- The module after `init`. -/
def init (ret : Int) (data : D) : Sensor D :=
  ⟨⟨initIrq ret, data⟩, [], 0⟩

/-! ### The line and the files -/

/-- The interrupt is enabled exactly while a file is open. -/
def EnabledWhileOpen (s : Sensor D) : Prop :=
  s.device.line.enabled = true ↔ s.files ≠ []

/-- A file is released only while no other file is open. -/
def ReleasedLast (s : Sensor D) : Event → Prop
  | .releaseFile _ => s.files.length = 1
  | _ => True

instance (s : Sensor D) : ∀ e, Decidable (ReleasedLast s e)
  | .releaseFile _ => inferInstanceAs (Decidable (_ = _))
  | .openFile _ => inferInstanceAs (Decidable True)
  | .interrupt _ => inferInstanceAs (Decidable True)

/-- The disable depth is 0 while a file is open and 1 while none is. -/
structure Balanced (s : Sensor D) : Prop where
  handled : s.device.line.handled = true
  idle : s.files = [] → s.device.line.depth = 1
  busy : s.files ≠ [] → s.device.line.depth = 0

theorem init_balanced (data : D) : Balanced (init 0 data) := by
  refine
    { handled := rfl
      idle := fun _ => rfl
      busy := fun h => absurd rfl h }

theorem Balanced.enabledWhileOpen {s : Sensor D} (h : Balanced s) :
    EnabledWhileOpen s := by
  unfold EnabledWhileOpen
  rw [IrqLine.enabled_iff h.handled]
  constructor
  · intro hdepth hnone
    have hone := h.idle hnone
    omega
  · exact h.busy

theorem Balanced.step {m : Handlers D} {s t : Sensor D} {e : Event}
    (h : Balanced s) (hlast : ReleasedLast s e)
    (hst : SensorIrq.step m s e = some t) : Balanced t := by
  cases e with
  | openFile now =>
      simp only [SensorIrq.step, Option.some.injEq] at hst
      subst hst
      refine
        { handled := ?_
          idle := fun hnone => by cases hnone
          busy := fun _ => ?_ }
      · rw [m.line_onOpen, IrqLine.handled_enableIrq]
        exact h.handled
      · rw [m.line_onOpen, IrqLine.depth_enableIrq]
        by_cases hfiles : s.files = []
        · rw [h.idle hfiles]
        · rw [h.busy hfiles]
  | releaseFile file =>
      simp only [SensorIrq.step] at hst
      by_cases hmem : file ∈ s.files
      · rw [if_pos hmem, Option.some.injEq] at hst
        subst hst
        have hlen : (s.files.erase file).length = 0 := by
          rw [List.length_erase_of_mem hmem, hlast]
        have hnone : s.files.erase file = [] := List.eq_nil_of_length_eq_zero hlen
        have hbusy : s.device.line.depth = 0 := h.busy (List.ne_nil_of_mem hmem)
        refine
          { handled := ?_
            idle := fun _ => ?_
            busy := fun hsome => absurd hnone hsome }
        · rw [m.line_onRelease, IrqLine.handled_disableIrq]
          exact h.handled
        · rw [m.line_onRelease, IrqLine.depth_disableIrq, hbusy]
      · rw [if_neg hmem] at hst
        cases hst
  | interrupt now =>
      simp only [SensorIrq.step] at hst
      by_cases hen : s.device.line.enabled = true
      · rw [if_pos hen, Option.some.injEq] at hst
        subst hst
        refine
          { handled := ?_
            idle := ?_
            busy := ?_ }
        · rw [m.line_isr]
          exact h.handled
        · rw [m.line_isr]
          exact h.idle
        · rw [m.line_isr]
          exact h.busy
      · rw [if_neg hen] at hst
        cases hst

/-- Releasing one of several files switches the line off under the others. -/
theorem Balanced.not_enabled {m : Handlers D} {s t : Sensor D} {e : Event}
    (h : Balanced s) (hnot : ¬ ReleasedLast s e)
    (hst : SensorIrq.step m s e = some t) : ¬ EnabledWhileOpen t := by
  cases e with
  | openFile now => exact absurd trivial hnot
  | interrupt now => exact absurd trivial hnot
  | releaseFile file =>
      simp only [SensorIrq.step] at hst
      by_cases hmem : file ∈ s.files
      · rw [if_pos hmem, Option.some.injEq] at hst
        subst hst
        have hpos : 0 < s.files.length := List.length_pos_of_mem hmem
        have hlen := List.length_erase_of_mem hmem
        intro hiff
        have hopen : s.files.erase file ≠ [] := by
          intro hnone
          rw [hnone] at hlen
          have hone : s.files.length = 1 := by
            simp only [List.length_nil] at hlen
            omega
          exact hnot hone
        have hen := hiff.mpr hopen
        have hhandled : s.device.line.disableIrq.handled = true := by
          rw [IrqLine.handled_disableIrq]
          exact h.handled
        rw [m.line_onRelease, IrqLine.enabled_iff hhandled,
          IrqLine.depth_disableIrq] at hen
        omega
      · rw [if_neg hmem] at hst
        cases hst

/-- In a run of the loaded module, the line is enabled exactly while a file
is open if and only if every file is released as the last one open. -/
theorem enabled_iff_releasedLast (m : Handlers D) (data : D) {s : Sensor D}
    {es : List Event} (hrun : run (step m) (init 0 data) es = some s) :
    Throughout (step m) EnabledWhileOpen (init 0 data) es ↔
      Along (step m) ReleasedLast (init 0 data) es :=
  throughout_iff_along (I := Balanced)
    (fun _ _ _ h hC hst => h.step hC hst)
    (fun _ h => h.enabledWhileOpen)
    (fun _ _ _ h hC hst => h.not_enabled hC hst)
    (init_balanced data) hrun

/-! ## `simple_sensor.c` -/

/-- The globals, in seconds, and what the handler has printed. -/
structure SimpleSensor where
  start : Int
  recent : Int
  detected : List Int
deriving DecidableEq, Repr

def simpleSensorOpen (now : Int) (d : Device SimpleSensor) :
    Device SimpleSensor :=
  { line := d.line.enableIrq
    data := { d.data with start := now } }

def simpleSensorRelease (d : Device SimpleSensor) : Device SimpleSensor :=
  { d with line := d.line.disableIrq }

def simpleSensorIsr (now : Int) (d : Device SimpleSensor) :
    Device SimpleSensor :=
  { d with
    data :=
      { d.data with
        recent := now
        detected := d.data.detected ++ [now - d.data.start] } }

def simpleSensor : Handlers SimpleSensor :=
  { onOpen := simpleSensorOpen
    onRelease := simpleSensorRelease
    isr := simpleSensorIsr
    line_onOpen := fun _ _ => rfl
    line_onRelease := fun _ => rfl
    line_isr := fun _ _ => rfl }

def simpleSensorInit (ret : Int) : Sensor SimpleSensor :=
  init ret ⟨0, 0, []⟩

/-! ## `spin_interrupt.c` -/

/-- `time_list_head`, in seconds, and what the releases have printed: the
list with its indices, empty for the text that says so. -/
structure SpinInterrupt where
  timeList : List Int
  shown : List (List (Nat × Int))
deriving DecidableEq, Repr

def spinInterruptOpen (_now : Int) (d : Device SpinInterrupt) :
    Device SpinInterrupt :=
  { d with line := d.line.enableIrq }

def spinInterruptRelease (d : Device SpinInterrupt) : Device SpinInterrupt :=
  { line := d.line.disableIrq
    data :=
      { d.data with
        shown := d.data.shown ++
          [d.data.timeList.zipIdx.map fun (time, index) => (index, time)] } }

/-- The handler, with its allocation successful. -/
def spinInterruptIsr (now : Int) (d : Device SpinInterrupt) :
    Device SpinInterrupt :=
  { d with data := { d.data with timeList := d.data.timeList ++ [now] } }

def spinInterrupt : Handlers SpinInterrupt :=
  { onOpen := spinInterruptOpen
    onRelease := spinInterruptRelease
    isr := spinInterruptIsr
    line_onOpen := fun _ _ => rfl
    line_onRelease := fun _ => rfl
    line_isr := fun _ _ => rfl }

def spinInterruptInit (ret : Int) : Sensor SpinInterrupt :=
  init ret ⟨[], []⟩

/-! ## The result -/

/-- For both modules, after a successful `init` and in every run of opens,
releases and interrupts: the interrupt is enabled exactly while a file is
open if and only if no file is released while another one is open. -/
theorem sensors_enabled_iff (es : List Event) :
    (∀ s, run (step simpleSensor) (simpleSensorInit 0) es = some s →
      (Throughout (step simpleSensor) EnabledWhileOpen
          (simpleSensorInit 0) es ↔
        Along (step simpleSensor) ReleasedLast (simpleSensorInit 0) es)) ∧
    ∀ s, run (step spinInterrupt) (spinInterruptInit 0) es = some s →
      (Throughout (step spinInterrupt) EnabledWhileOpen
          (spinInterruptInit 0) es ↔
        Along (step spinInterrupt) ReleasedLast (spinInterruptInit 0) es) :=
  ⟨fun _ hrun => enabled_iff_releasedLast simpleSensor _ hrun,
    fun _ hrun => enabled_iff_releasedLast spinInterrupt _ hrun⟩

/-- Two sessions, one after the other, with a detection in each. -/
def sessionsRun : List Event :=
  [ .openFile 10, .interrupt 12, .releaseFile 0
  , .openFile 20, .interrupt 25, .releaseFile 1 ]

theorem sensors_enabled_iff_sessionsRun :
    Throughout (step simpleSensor) EnabledWhileOpen (simpleSensorInit 0)
        sessionsRun ∧
      Throughout (step spinInterrupt) EnabledWhileOpen (spinInterruptInit 0)
        sessionsRun := by
  have hsensor : (run (step simpleSensor) (simpleSensorInit 0)
      sessionsRun).isSome = true := by decide +kernel
  have hspin : (run (step spinInterrupt) (spinInterruptInit 0)
      sessionsRun).isSome = true := by decide +kernel
  obtain ⟨s, hs⟩ := Option.isSome_iff_exists.mp hsensor
  obtain ⟨t, ht⟩ := Option.isSome_iff_exists.mp hspin
  exact ⟨((sensors_enabled_iff _).1 s hs).mpr (by decide +kernel),
    ((sensors_enabled_iff _).2 t ht).mpr (by decide +kernel)⟩

/-- Two opens overlap and the first file is released. -/
def overlapRun : List Event := [.openFile 10, .openFile 11, .releaseFile 0]

/-- The line is disabled although file 1 is open, in both modules. -/
theorem overlapRun_disabled :
    (run (step simpleSensor) (simpleSensorInit 0) overlapRun).map
        (fun s => (s.device.line.enabled, s.files)) = some (false, [1]) ∧
      (run (step spinInterrupt) (spinInterruptInit 0) overlapRun).map
        (fun s => (s.device.line.enabled, s.files)) = some (false, [1]) := by
  decide +kernel

end EmbeddedSystem.Labs.SensorIrq
