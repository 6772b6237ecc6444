import EmbeddedSystem.Labs.SensorIrq
import EmbeddedSystem.Labs.SpinInterrupt

/-!
# The start times of `simple_sensor.c`

`simple_sensor_open` enables the interrupt and then reads the clock into
`start`, and the handler prints how many seconds after `start` it was called.
`SensorIrq` takes an open in one step; here opens and releases, one session
after another, go on statement by statement, and so does the handler.

Between the `enable_irq` of an open and its store to `start`, the handler finds
the start of an earlier session there, or none at all.  That is the only way to
get a wrong start (`sinceOpened_iff`).
-/

set_option autoImplicit false

namespace EmbeddedSystem.Labs.SensorSession

open EmbeddedSystem.Verified
open EmbeddedSystem.Verified.Transition
open EmbeddedSystem.Labs.SpinInterrupt (Timespec getnstimeofday)

/-! ## State -/

/-- The next statement of `simple_sensor_open` or `simple_sensor_release`, or
where the file is between them.  `getnstimeofday(&start)` reads the clock and
then stores what it has read; `disable_irq` waits in `synchronize`. -/
inductive FilePc where
  | closed
  | enable
  | readClock
  | store (time : Timespec)
  | opened
  | disable
  | synchronize
deriving DecidableEq, Repr

/-- The next statement of `simple_sensor_isr`.  `own` is the time that it has
read; no code reads it. -/
inductive IsrPc where
  | idle
  | stamp
  | print (own : Timespec)
deriving DecidableEq, Repr

/-- What the handler has printed, and for the proofs in which session, the
session whose open had stored `start`, and the time of the interrupt. -/
structure Detection where
  session : Nat
  startOf : Nat
  time : Timespec
  secs : Int
deriving DecidableEq, Repr

/-- The loaded module.  `now` is the clock and `opened` the number of opens so
far, which numbers the sessions from 1 on.  `startOf` is the session whose open
has stored `start`, and `taken` are the start times that the opens have read;
no code reads these three. -/
structure Sensor where
  line : IrqLine
  now : Int
  start : Timespec
  recent : Timespec
  file : FilePc
  isr : IsrPc
  opened : Nat
  startOf : Nat
  taken : List (Nat × Timespec)
  detections : List Detection
deriving DecidableEq, Repr

/-- After `simple_sensor_init`, where `ret` is the result of `request_irq`. -/
def simpleSensorInit (ret now : Int) : Sensor :=
  { line := SensorIrq.initIrq ret
    now := now
    start := ⟨0, 0⟩
    recent := ⟨0, 0⟩
    file := .closed
    isr := .idle
    opened := 0
    startOf := 0
    taken := []
    detections := [] }

/-! ## Steps -/

/-- Time passes; an interrupt arrives; the handler goes on; the file is opened
or released; the open or the release goes on. -/
inductive Move where
  | tick (ns : Nat)
  | interrupt
  | isr
  | openFile
  | releaseFile
  | file
deriving DecidableEq, Repr

/-- One statement of `simple_sensor_open` or `simple_sensor_release`. -/
def fileStep (s : Sensor) : FilePc → Option Sensor
  | .closed => none
  | .enable => some { s with line := s.line.enableIrq, file := .readClock }
  | .readClock =>
      some { s with
        file := .store (getnstimeofday s.now)
        taken := s.taken ++ [(s.opened, getnstimeofday s.now)] }
  | .store time =>
      some { s with start := time, startOf := s.opened, file := .opened }
  | .opened => none
  | .disable => some { s with line := s.line.disableIrq, file := .synchronize }
  | .synchronize =>
      if s.isr = .idle then some { s with file := .closed } else none

/-- One statement of `simple_sensor_isr`. -/
def simpleSensorIsr (s : Sensor) : IsrPc → Option Sensor
  | .idle => none
  | .stamp =>
      some { s with
        recent := getnstimeofday s.now
        isr := .print (getnstimeofday s.now) }
  | .print own =>
      some { s with
        isr := .idle
        detections := s.detections ++
          [⟨s.opened, s.startOf, own, s.recent.tvSec - s.start.tvSec⟩] }

/-- One step.  An enabled line interrupts, and the handler is not re-entered;
the file is opened when it is closed and released when it is open. -/
def step (s : Sensor) : Move → Option Sensor
  | .tick ns => some { s with now := s.now + ns }
  | .interrupt =>
      if s.line.enabled ∧ s.isr = .idle then some { s with isr := .stamp }
      else none
  | .isr => simpleSensorIsr s s.isr
  | .openFile =>
      if s.file = .closed then
        some { s with file := .enable, opened := s.opened + 1 }
      else none
  | .releaseFile =>
      if s.file = .opened then some { s with file := .disable } else none
  | .file => fileStep s s.file

/-- The statement that the handler has gone on with. -/
theorem isr_cases {s t : Sensor} (hst : step s .isr = some t) :
    s.isr = .stamp ∧ simpleSensorIsr s .stamp = some t ∨
      ∃ own, s.isr = .print own ∧ simpleSensorIsr s (.print own) = some t := by
  have hmove : simpleSensorIsr s s.isr = some t := hst
  cases hisr : s.isr with
  | idle =>
      rw [hisr] at hmove
      cases hmove
  | stamp =>
      rw [hisr] at hmove
      exact Or.inl ⟨rfl, hmove⟩
  | print own =>
      rw [hisr] at hmove
      exact Or.inr ⟨own, rfl, hmove⟩

/-- An open with nothing in between is the one step of `SensorIrq`. -/
theorem open_undisturbed {s : Sensor} (h : s.file = .closed)
    (d : SensorIrq.Device SensorIrq.SimpleSensor) (hline : d.line = s.line) :
    ∃ t, run step s [.openFile, .file, .file, .file] = some t ∧
      t.file = .opened ∧ t.isr = s.isr ∧
      t.line = (SensorIrq.simpleSensorOpen (s.now / 1000000000) d).line ∧
      t.start.tvSec =
        (SensorIrq.simpleSensorOpen (s.now / 1000000000) d).data.start := by
  simp only [run_cons, step, h, if_true, Option.bind_some, fileStep, run_nil]
  refine ⟨_, rfl, rfl, rfl, ?_, rfl⟩
  rw [SensorIrq.simpleSensorOpen, hline]

/-! ## Which start the handler finds -/

/-- Every detection was printed with a start time that the open of the same
session has taken. -/
def SinceOpened (s : Sensor) : Prop :=
  ∀ d ∈ s.detections, d.startOf = d.session ∧
    ∃ p ∈ s.taken, p.1 = d.session ∧ d.secs = d.time.tvSec - p.2.tvSec

instance (s : Sensor) : Decidable (SinceOpened s) :=
  inferInstanceAs (Decidable (∀ d ∈ s.detections, _))

/-- The open has enabled the interrupt and not yet stored `start`. -/
def FilePc.opening : FilePc → Bool
  | .readClock => true
  | .store _ => true
  | _ => false

/-- The open has stored `start`, and the release has not ended. -/
def FilePc.started : FilePc → Bool
  | .opened => true
  | .disable => true
  | .synchronize => true
  | _ => false

/-- The handler does not print while a file is between `enable_irq` and the
store to `start`. -/
def PrintsStarted (s : Sensor) : Move → Prop
  | .isr => s.isr = .idle ∨ s.isr = .stamp ∨ s.file.opening = false
  | _ => True

instance (s : Sensor) : ∀ a, Decidable (PrintsStarted s a)
  | .isr => inferInstanceAs (Decidable (_ ∨ _ ∨ _))
  | .tick _ => inferInstanceAs (Decidable True)
  | .interrupt => inferInstanceAs (Decidable True)
  | .openFile => inferInstanceAs (Decidable True)
  | .releaseFile => inferInstanceAs (Decidable True)
  | .file => inferInstanceAs (Decidable True)

/-- The open has not yet stored `start`. -/
def FilePc.beforeStore : FilePc → Bool
  | .enable => true
  | .readClock => true
  | .store _ => true
  | _ => false

/-- `disable_irq` has the line. -/
def FilePc.lineOff : FilePc → Bool
  | .closed => true
  | .enable => true
  | .synchronize => true
  | _ => false

theorem FilePc.on_of_not_lineOff {pc : FilePc} (h : ¬ pc.lineOff) :
    pc.opening ∨ pc.started := by
  cases pc with
  | closed => exact absurd rfl h
  | enable => exact absurd rfl h
  | readClock => exact Or.inl rfl
  | store time => exact Or.inl rfl
  | opened => exact Or.inr rfl
  | disable => exact Or.inr rfl
  | synchronize => exact absurd rfl h

theorem FilePc.beforeStore_of_opening {pc : FilePc} (h : pc.opening) :
    pc.beforeStore := by
  cases pc with
  | readClock => rfl
  | store time => rfl
  | _ => cases h

/-- The handler runs in a session only, since a release waits for it. -/
structure LineInv (s : Sensor) : Prop where
  disabled : s.file.lineOff → 0 < s.line.depth
  handling : s.isr ≠ .idle → s.file.opening ∨ s.file.started

/-- Once it is stored, `start` is a time that this open has taken. -/
structure StartInv (s : Sensor) : Prop where
  own : ∀ t, s.isr = .print t → s.recent = t
  earlier : s.startOf ≤ s.opened
  opening : s.file.beforeStore → s.startOf < s.opened
  storing : ∀ t, s.file = .store t → (s.opened, t) ∈ s.taken
  started : s.file.started →
    s.startOf = s.opened ∧ (s.opened, s.start) ∈ s.taken

theorem simpleSensorInit_lineInv (ret now : Int) :
    LineInv (simpleSensorInit ret now) := by
  refine
    { disabled := fun _ => ?_
      handling := fun h => absurd rfl h }
  show 0 < (SensorIrq.initIrq ret).depth
  unfold SensorIrq.initIrq
  split <;> decide

theorem simpleSensorInit_startInv (ret now : Int) :
    StartInv (simpleSensorInit ret now) :=
  { own := fun t h => by cases h
    earlier := Nat.le_refl 0
    opening := fun h => by cases h
    storing := fun t h => by cases h
    started := fun h => by cases h }

theorem lineInv_fileStep {s t : Sensor} {pc : FilePc} (h : LineInv s)
    (hpc : s.file = pc) (hst : fileStep s pc = some t) : LineInv t := by
  have hdisabled := h.disabled
  have hhandling := h.handling
  rw [hpc] at hdisabled hhandling
  cases pc with
  | closed => cases hst
  | enable =>
      cases hst
      exact ⟨(fun hoff => by cases hoff), fun _ => Or.inl rfl⟩
  | readClock =>
      cases hst
      exact ⟨(fun hoff => by cases hoff), fun _ => Or.inl rfl⟩
  | store time =>
      cases hst
      exact ⟨(fun hoff => by cases hoff), fun _ => Or.inr rfl⟩
  | opened => cases hst
  | disable =>
      cases hst
      refine ⟨fun _ => ?_, fun _ => Or.inr rfl⟩
      show 0 < s.line.disableIrq.depth
      rw [IrqLine.depth_disableIrq]
      omega
  | synchronize =>
      obtain ⟨hidle, hst⟩ := Option.ite_none_right_eq_some.mp hst
      cases hst
      exact ⟨fun _ => hdisabled rfl, fun hne => absurd hidle hne⟩

theorem LineInv.step {s t : Sensor} {a : Move} (h : LineInv s)
    (hst : SensorSession.step s a = some t) : LineInv t := by
  cases a with
  | tick ns =>
      cases hst
      exact ⟨h.disabled, h.handling⟩
  | interrupt =>
      obtain ⟨hen, hst⟩ := Option.ite_none_right_eq_some.mp hst
      cases hst
      refine ⟨h.disabled, fun _ => ?_⟩
      have hdepth : s.line.depth = 0 := IrqLine.depth_of_enabled hen.1
      exact FilePc.on_of_not_lineOff fun hoff =>
        absurd hdepth (Nat.ne_of_gt (h.disabled hoff))
  | isr =>
      rcases isr_cases hst with ⟨hisr, hmove⟩ | ⟨own, hisr, hmove⟩
      · cases hmove
        exact ⟨h.disabled, fun _ => h.handling (by rw [hisr]; decide)⟩
      · cases hmove
        exact ⟨h.disabled, fun hne => absurd rfl hne⟩
  | openFile =>
      obtain ⟨hclosed, hst⟩ := Option.ite_none_right_eq_some.mp hst
      cases hst
      have hdisabled := h.disabled
      have hhandling := h.handling
      rw [hclosed] at hdisabled hhandling
      refine ⟨fun _ => hdisabled rfl, fun hne => ?_⟩
      rcases hhandling hne with hfile | hfile <;> cases hfile
  | releaseFile =>
      obtain ⟨-, hst⟩ := Option.ite_none_right_eq_some.mp hst
      cases hst
      exact ⟨(fun hoff => by cases hoff), fun _ => Or.inr rfl⟩
  | file => exact lineInv_fileStep h rfl hst

theorem startInv_fileStep {s t : Sensor} {pc : FilePc} (h : StartInv s)
    (hpc : s.file = pc) (hst : fileStep s pc = some t) : StartInv t := by
  have hopening := h.opening
  have hstoring := h.storing
  have hstarted := h.started
  rw [hpc] at hopening hstoring hstarted
  cases pc with
  | closed => cases hst
  | enable =>
      cases hst
      exact
        { own := h.own
          earlier := h.earlier
          opening := fun _ => hopening rfl
          storing := fun t ht => by cases ht
          started := fun ht => by cases ht }
  | readClock =>
      cases hst
      refine
        { own := h.own
          earlier := h.earlier
          opening := fun _ => hopening rfl
          storing := fun t ht => ?_
          started := fun ht => by cases ht }
      cases ht
      exact List.mem_append_right _ List.mem_cons_self
  | store time =>
      cases hst
      exact
        { own := h.own
          earlier := Nat.le_refl s.opened
          opening := fun ht => by cases ht
          storing := fun t ht => by cases ht
          started := fun _ => ⟨rfl, hstoring time rfl⟩ }
  | opened => cases hst
  | disable =>
      cases hst
      exact
        { own := h.own
          earlier := h.earlier
          opening := fun ht => by cases ht
          storing := fun t ht => by cases ht
          started := fun _ => hstarted rfl }
  | synchronize =>
      obtain ⟨-, hst⟩ := Option.ite_none_right_eq_some.mp hst
      cases hst
      exact
        { own := h.own
          earlier := h.earlier
          opening := fun ht => by cases ht
          storing := fun t ht => by cases ht
          started := fun ht => by cases ht }

theorem StartInv.step {s t : Sensor} {a : Move} (h : StartInv s)
    (hst : SensorSession.step s a = some t) : StartInv t := by
  cases a with
  | tick ns =>
      cases hst
      exact ⟨h.own, h.earlier, h.opening, h.storing, h.started⟩
  | interrupt =>
      obtain ⟨-, hst⟩ := Option.ite_none_right_eq_some.mp hst
      cases hst
      exact ⟨(fun t ht => by cases ht), h.earlier, h.opening, h.storing,
        h.started⟩
  | isr =>
      rcases isr_cases hst with ⟨-, hmove⟩ | ⟨own, -, hmove⟩
      · cases hmove
        refine ⟨fun t ht => ?_, h.earlier, h.opening, h.storing, h.started⟩
        cases ht
        rfl
      · cases hmove
        exact ⟨(fun t ht => by cases ht), h.earlier, h.opening, h.storing,
          h.started⟩
  | openFile =>
      obtain ⟨-, hst⟩ := Option.ite_none_right_eq_some.mp hst
      cases hst
      exact
        { own := h.own
          earlier := Nat.le_succ_of_le h.earlier
          opening := fun _ => Nat.lt_succ_of_le h.earlier
          storing := fun t ht => by cases ht
          started := fun ht => by cases ht }
  | releaseFile =>
      obtain ⟨hopened, hst⟩ := Option.ite_none_right_eq_some.mp hst
      have hstarted := h.started
      rw [hopened] at hstarted
      cases hst
      exact
        { own := h.own
          earlier := h.earlier
          opening := fun ht => by cases ht
          storing := fun t ht => by cases ht
          started := fun _ => hstarted rfl }
  | file => exact startInv_fileStep h rfl hst

/-- More start times change nothing about what has been printed. -/
theorem SinceOpened.mono {s t : Sensor} (h : SinceOpened s)
    (hdet : t.detections = s.detections)
    (htaken : ∀ p ∈ s.taken, p ∈ t.taken) : SinceOpened t := by
  intro d hd
  rw [hdet] at hd
  obtain ⟨hstart, p, hp, hsession, hsecs⟩ := h d hd
  exact ⟨hstart, p, htaken p hp, hsession, hsecs⟩

theorem sinceOpened_fileStep {s t : Sensor} {pc : FilePc}
    (h : SinceOpened s) (hst : fileStep s pc = some t) : SinceOpened t := by
  cases pc with
  | closed => cases hst
  | enable =>
      cases hst
      exact h
  | readClock =>
      cases hst
      exact h.mono rfl fun p hp => List.mem_append_left _ hp
  | store time =>
      cases hst
      exact h
  | opened => cases hst
  | disable =>
      cases hst
      exact h
  | synchronize =>
      obtain ⟨-, hst⟩ := Option.ite_none_right_eq_some.mp hst
      cases hst
      exact h

/-- The detection that a step of the handler adds. -/
theorem sinceOpened_print {s t : Sensor} {own : Timespec}
    (hst : simpleSensorIsr s (.print own) = some t) :
    SinceOpened t ↔ SinceOpened s ∧ s.startOf = s.opened ∧
      ∃ p ∈ s.taken, p.1 = s.opened ∧
        s.recent.tvSec - s.start.tvSec = own.tvSec - p.2.tvSec := by
  cases hst
  unfold SinceOpened
  rw [List.forall_mem_append, List.forall_mem_singleton]

theorem SinceOpened.step {s t : Sensor} {a : Move} (hline : LineInv s)
    (hstart : StartInv s) (h : SinceOpened s) (hC : PrintsStarted s a)
    (hst : SensorSession.step s a = some t) : SinceOpened t := by
  cases a with
  | tick ns =>
      cases hst
      exact h
  | interrupt =>
      obtain ⟨-, hst⟩ := Option.ite_none_right_eq_some.mp hst
      cases hst
      exact h
  | isr =>
      rcases isr_cases hst with ⟨-, hmove⟩ | ⟨own, hisr, hmove⟩
      · cases hmove
        exact h
      · have hnot : s.file.opening = false := by
          rcases hC with hidle | hstamp | hnot
          · cases hisr.symm.trans hidle
          · cases hisr.symm.trans hstamp
          · exact hnot
        have hon : s.file.started := by
          have hbusy : s.isr ≠ .idle := by
            intro hidle
            cases hisr.symm.trans hidle
          rcases hline.handling hbusy with hopening | hon
          · rw [hnot] at hopening
            cases hopening
          · exact hon
        obtain ⟨hsession, htaken⟩ := hstart.started hon
        rw [sinceOpened_print hmove, hstart.own own hisr]
        exact ⟨h, hsession, _, htaken, rfl, rfl⟩
  | openFile =>
      obtain ⟨-, hst⟩ := Option.ite_none_right_eq_some.mp hst
      cases hst
      exact h
  | releaseFile =>
      obtain ⟨-, hst⟩ := Option.ite_none_right_eq_some.mp hst
      cases hst
      exact h
  | file => exact sinceOpened_fileStep h hst

/-- In a file that is being opened `start` is from an earlier session. -/
theorem StartInv.not_sinceOpened {s t : Sensor} {a : Move} (h : StartInv s)
    (hnot : ¬ PrintsStarted s a) (hst : SensorSession.step s a = some t) :
    ¬ SinceOpened t := by
  cases a with
  | isr =>
      rcases isr_cases hst with ⟨hisr, -⟩ | ⟨own, -, hmove⟩
      · exact absurd (Or.inr (Or.inl hisr)) hnot
      · have hopening : s.file.opening := by
          by_cases hopening : s.file.opening
          · exact hopening
          · exact absurd (Or.inr (Or.inr (eq_false_of_ne_true hopening))) hnot
        have hearlier := h.opening (FilePc.beforeStore_of_opening hopening)
        rw [sinceOpened_print hmove]
        intro hall
        exact absurd hall.2.1 (Nat.ne_of_lt hearlier)
  | _ => exact absurd trivial hnot

/-! ## The result -/

/-- In a run of the loaded module, every detection is printed with a start time
that the open of the same session has taken if and only if the handler never
prints while an open is between its `enable_irq` and its store to `start`. -/
theorem sinceOpened_iff {ret now : Int} {moves : List Move} {s : Sensor}
    (hrun : run step (simpleSensorInit ret now) moves = some s) :
    Throughout step SinceOpened (simpleSensorInit ret now) moves ↔
      Along step PrintsStarted (simpleSensorInit ret now) moves := by
  apply throughout_iff_along
    (I := fun s => LineInv s ∧ StartInv s ∧ SinceOpened s)
  · rintro s a t ⟨hline, hstart, h⟩ hC hst
    exact ⟨hline.step hst, hstart.step hst, h.step hline hstart hC hst⟩
  · exact fun s h => h.2.2
  · exact fun s a t h hC hst => h.2.1.not_sinceOpened hC hst
  · exact ⟨simpleSensorInit_lineInv ret now, simpleSensorInit_startInv ret now,
      fun d hd => absurd hd List.not_mem_nil⟩
  · exact hrun

/-- A second. -/
def second : Nat := 1000000000

/-- Two sessions with a detection in each. -/
def sessionsRun : List Move :=
  [ .openFile, .file, .file, .file, .tick (3 * second), .interrupt, .isr
  , .isr, .releaseFile, .file, .file, .tick (10 * second), .openFile, .file
  , .interrupt, .file, .isr, .file, .tick second, .isr, .releaseFile ]

/-- The interrupt of the second session comes before its open has read the
clock, but the handler prints after it is stored. -/
theorem sinceOpened_iff_sessionsRun :
    (run step (simpleSensorInit 0 100000000000) sessionsRun).map
        (fun s => s.detections.map fun d => (d.session, d.secs)) =
      some [(1, 3), (2, 0)] ∧
    Throughout step SinceOpened (simpleSensorInit 0 100000000000)
      sessionsRun := by
  have hruns : (run step (simpleSensorInit 0 100000000000)
      sessionsRun).isSome = true := by decide +kernel
  obtain ⟨s, hs⟩ := Option.isSome_iff_exists.mp hruns
  exact ⟨by decide +kernel, (sinceOpened_iff hs).mpr (by decide +kernel)⟩

/-- A session at 100 seconds, and one at 200 seconds where an interrupt comes
right after the `enable_irq`. -/
def staleRun : List Move :=
  [ .openFile, .file, .file, .file, .releaseFile, .file, .file
  , .tick (100 * second), .openFile, .file, .interrupt, .isr, .isr, .file
  , .file ]

/-- It prints 100 seconds, the time since the start of the first session. -/
theorem staleRun_stale :
    (run step (simpleSensorInit 0 100000000000) staleRun).map
        (fun s => (s.detections, s.taken)) =
      some ([⟨2, 1, ⟨200, 0⟩, 100⟩], [(1, ⟨100, 0⟩), (2, ⟨200, 0⟩)]) ∧
    ¬ Throughout step SinceOpened (simpleSensorInit 0 100000000000)
      staleRun := by
  refine ⟨by decide +kernel, fun h => ?_⟩
  have hend : (run step (simpleSensorInit 0 100000000000) staleRun).map
      (fun s => decide (SinceOpened s)) = some false := by decide +kernel
  obtain ⟨s, hs, hstale⟩ := Option.map_eq_some_iff.mp hend
  exact of_decide_eq_false hstale (h staleRun [] s rfl hs)

end EmbeddedSystem.Labs.SensorSession
