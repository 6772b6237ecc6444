import EmbeddedSystem.Verified.CString
import EmbeddedSystem.Verified.GpioLine
import EmbeddedSystem.Verified.Transition
import EmbeddedSystem.Verified.Uaccess

/-!
# The LED driver `pi2_led_driver.c`

The driver requests the GPIO that the module parameter `led_gpio` names and
sets it on every byte `'0'` or `'1'` that is written to its device.  The
parameter is writable while the module is loaded, and `pi2_led_write` and
`pi2_led_exit` read it again each time they use it.  So the driver keeps to
the GPIO it has requested exactly as long as nobody has changed the parameter
at the moments when it is read (`ownGpioOnly_iff`).

`led_lock` does not appear: each call takes it once and the locked section is
one atomic step.  What a call does before it takes the lock touches nothing
shared, so whole calls are atomic here, except for `pi2_led_exit`, which reads
the parameter twice.
-/

set_option autoImplicit false

namespace EmbeddedSystem.Team.Pi2LedDriver

open EmbeddedSystem.Verified
open EmbeddedSystem.Verified.CString
open EmbeddedSystem.Verified.Uaccess
open EmbeddedSystem.Verified.Transition

/-! ## State -/

/-- `DEFAULT_LED_GPIO` -/
def defaultLedGpio : Int := 5

/-- The module's globals and its successful calls to the GPIO library.
`ledState` is 0 or 1. -/
structure Pi2Led where
  ledGpio : Int
  ledState : Bool
  gpio : List GpioCall
deriving DecidableEq, Repr

/-- Before `pi2_led_init`, with the parameter as it was given at load. -/
def unloaded (ledGpio : Int) : Pi2Led := ⟨ledGpio, false, []⟩

namespace Pi2Led

/-- One more call to the GPIO library. -/
def call (d : Pi2Led) (c : GpioCall) : Pi2Led := { d with gpio := d.gpio ++ [c] }

end Pi2Led

/-! ## Functions -/

/-- What the calls in `pi2_led_init` return; for `class_create` and
`device_create`, the error in an error pointer and 0 for any other. -/
structure InitRets where
  gpioIsValid : Bool
  gpioRequest : Int
  gpioDirectionOutput : Int
  allocChrdevRegion : Int
  cdevAdd : Int
  classCreate : Int
  deviceCreate : Int
deriving DecidableEq, Repr

def pi2LedInit (r : InitRets) (d : Pi2Led) : Pi2Led × Int :=
  if r.gpioIsValid = false then (d, -einval)
  else if r.gpioRequest ≠ 0 then (d, r.gpioRequest)
  else
    let d := d.call (.gpioRequest d.ledGpio)
    if r.gpioDirectionOutput ≠ 0 then
      (d.call (.gpioFree d.ledGpio), r.gpioDirectionOutput)
    else
      let d := d.call (.gpioDirectionOutput d.ledGpio false)
      let d := { d with ledState := false }
      if r.allocChrdevRegion < 0 then
        (d.call (.gpioFree d.ledGpio), r.allocChrdevRegion)
      else if r.cdevAdd < 0 then (d.call (.gpioFree d.ledGpio), r.cdevAdd)
      else if r.classCreate < 0 then
        (d.call (.gpioFree d.ledGpio), r.classCreate)
      else if r.deviceCreate < 0 then
        (d.call (.gpioFree d.ledGpio), -einval)
      else (d, 0)

/-- `pi2_led_read`: the value returned, what was copied to the user and the
new file position.  `left` is what `copy_to_user` returns. -/
def pi2LedRead (d : Pi2Led) (count ppos left : Nat) : Int × Bytes × Nat :=
  let kbuf := ascii (if d.ledState then "1\n" else "0\n")
  if 0 < ppos then (0, [], ppos)
  else if count < kbuf.length then (-einval, [], ppos)
  else if left ≠ 0 then (-efault, kbuf.take (kbuf.length - left), ppos)
  else (kbuf.length, kbuf, ppos + kbuf.length)

/-- `pi2_led_write` of `buf.length` bytes, of which only the first is read.
`left` is what `copy_from_user` returns. -/
def pi2LedWrite (d : Pi2Led) (buf : Bytes) (left : Nat) : Pi2Led × Int :=
  match buf with
  | [] => (d, -einval)
  | cmd :: _ =>
      if left ≠ 0 then (d, -efault)
      else if [cmd] = ascii "1" then
        ({ d.call (.gpioSetValue d.ledGpio true) with ledState := true },
          buf.length)
      else if [cmd] = ascii "0" then
        ({ d.call (.gpioSetValue d.ledGpio false) with ledState := false },
          buf.length)
      else (d, -einval)

/-- `pi2_led_exit` up to `device_destroy`. -/
def pi2LedExitDrive (d : Pi2Led) : Pi2Led :=
  { d.call (.gpioSetValue d.ledGpio false) with ledState := false }

/-- The rest of `pi2_led_exit`. -/
def pi2LedExitFree (d : Pi2Led) : Pi2Led := d.call (.gpioFree d.ledGpio)

/-! ## What the functions do -/

/-- The LED right after a successful `pi2_led_init`. -/
def loadedLed (ledGpio : Int) : Pi2Led :=
  ⟨ledGpio, false, [.gpioRequest ledGpio, .gpioDirectionOutput ledGpio false]⟩

/-- Either `pi2_led_init` succeeds, or it fails and has freed what it had
requested. -/
theorem pi2LedInit_cases (r : InitRets) (ledGpio : Int) :
    pi2LedInit r (unloaded ledGpio) = (loadedLed ledGpio, 0) ∨
      ((pi2LedInit r (unloaded ledGpio)).2 ≠ 0 ∧
        ((pi2LedInit r (unloaded ledGpio)).1.gpio = [] ∨
          (pi2LedInit r (unloaded ledGpio)).1.gpio.getLast? =
            some (.gpioFree ledGpio))) := by
  have heinval : -einval ≠ 0 := by decide
  unfold pi2LedInit
  split
  · exact Or.inr ⟨heinval, Or.inl rfl⟩
  split
  case isTrue hret => exact Or.inr ⟨hret, Or.inl rfl⟩
  dsimp only
  split
  case isTrue hret => exact Or.inr ⟨hret, Or.inr rfl⟩
  split
  case isTrue hneg => exact Or.inr ⟨Int.ne_of_lt hneg, Or.inr rfl⟩
  split
  case isTrue hneg => exact Or.inr ⟨Int.ne_of_lt hneg, Or.inr rfl⟩
  split
  case isTrue hneg => exact Or.inr ⟨Int.ne_of_lt hneg, Or.inr rfl⟩
  split
  case isTrue => exact Or.inr ⟨heinval, Or.inr rfl⟩
  case isFalse => exact Or.inl rfl

/-- A `pi2_led_init` that returns 0 has requested the GPIO and driven it
low. -/
theorem eq_loadedLed {r : InitRets} {g : Int} {d : Pi2Led}
    (hinit : pi2LedInit r (unloaded g) = (d, 0)) : d = loadedLed g := by
  rcases pi2LedInit_cases r g with hok | ⟨hfail, -⟩
  · rw [hinit] at hok
    exact (Prod.mk.inj hok).1
  · rw [hinit] at hfail
    exact absurd rfl hfail

/-- The value that a write sets the LED to, if it is accepted. -/
def accepted (buf : Bytes) (left : Nat) : Option Bool :=
  if left ≠ 0 then none
  else if buf.take 1 = ascii "1" then some true
  else if buf.take 1 = ascii "0" then some false
  else none

/-- An accepted write sets the GPIO and the state, and any other write
returns an error and changes nothing. -/
theorem pi2LedWrite_cases (d : Pi2Led) (buf : Bytes) (left : Nat) :
    (∃ value, accepted buf left = some value ∧
        pi2LedWrite d buf left =
          ({ d.call (.gpioSetValue d.ledGpio value) with ledState := value },
            (buf.length : Int))) ∨
      (accepted buf left = none ∧ ∃ code, code < 0 ∧
        pi2LedWrite d buf left = (d, code)) := by
  have hone : ascii "1" ≠ [] := by decide
  have hzero : ascii "0" ≠ [] := by decide
  cases buf with
  | nil =>
      right
      refine ⟨?_, -einval, by decide, rfl⟩
      simp [accepted, hone.symm, hzero.symm]
  | cons cmd rest =>
      have htake : (cmd :: rest).take 1 = [cmd] := rfl
      unfold accepted pi2LedWrite
      rw [htake]
      dsimp only
      by_cases hleft : left ≠ 0
      · rw [if_pos hleft, if_pos hleft]
        exact Or.inr ⟨rfl, -efault, by decide, rfl⟩
      · rw [if_neg hleft, if_neg hleft]
        by_cases h1 : [cmd] = ascii "1"
        · rw [if_pos h1, if_pos h1]
          exact Or.inl ⟨true, rfl, rfl⟩
        · rw [if_neg h1, if_neg h1]
          by_cases h0 : [cmd] = ascii "0"
          · rw [if_pos h0, if_pos h0]
            exact Or.inl ⟨false, rfl, rfl⟩
          · rw [if_neg h0, if_neg h0]
            exact Or.inr ⟨rfl, -einval, by decide, rfl⟩

/-! ## The loaded module -/

/-- How far the module's unloading has got. -/
inductive ExitPc where
  | loaded
  | driven
  | unloaded
deriving DecidableEq, Repr

/-- The loaded module, with the positions of the files that were opened so
far; `none` for a released one. -/
structure Module where
  driver : Pi2Led
  files : List (Option Nat)
  exit : ExitPc
deriving DecidableEq, Repr

inductive Event where
  /-- a store to the module parameter `led_gpio` -/
  | store (value : Int)
  | openFile
  | releaseFile (file : Nat)
  | read (file count left : Nat)
  | write (file : Nat) (buf : Bytes) (left : Nat)
  | exitDrive
  | exitFree
deriving DecidableEq, Repr

/-- File operations need the module, and unloading it needs that no file is
open. -/
def step (m : Module) : Event → Option Module
  | .store value =>
      if m.exit = .unloaded then none
      else some { m with driver := { m.driver with ledGpio := value } }
  | .openFile =>
      if m.exit = .loaded then some { m with files := m.files ++ [some 0] }
      else none
  | .releaseFile file =>
      match m.files[file]? with
      | some (some _) => some { m with files := m.files.set file none }
      | _ => none
  | .read file count left =>
      match m.files[file]? with
      | some (some ppos) =>
          let (_, _, ppos') := pi2LedRead m.driver count ppos left
          some { m with files := m.files.set file (some ppos') }
      | _ => none
  | .write file buf left =>
      match m.files[file]? with
      | some (some _) =>
          some { m with driver := (pi2LedWrite m.driver buf left).1 }
      | _ => none
  | .exitDrive =>
      if m.exit = .loaded ∧ m.files.all Option.isNone then
        some { m with driver := pi2LedExitDrive m.driver, exit := .driven }
      else none
  | .exitFree =>
      if m.exit = .driven then
        some { m with driver := pi2LedExitFree m.driver, exit := .unloaded }
      else none

/-- The module right after it was loaded. -/
def loaded (ledGpio : Int) : Module := ⟨loadedLed ledGpio, [], .loaded⟩

/-! ## Which GPIO is driven and freed -/

/-- The driver has set and freed no GPIO but `g`, and once it is unloaded,
the last it did was to drive `g` low and to free it. -/
structure OwnGpioOnly (g : Int) (m : Module) : Prop where
  set : ∀ n value, .gpioSetValue n value ∈ m.driver.gpio → n = g
  free : ∀ n, .gpioFree n ∈ m.driver.gpio → n = g
  exit : m.exit = .unloaded → ∃ before,
    m.driver.gpio = before ++ [.gpioSetValue g false, .gpioFree g]

/-- Where the driver reads the parameter, it has the value `g`. -/
def ReadsOwn (g : Int) (m : Module) : Event → Prop
  | .write _ buf left => accepted buf left ≠ none → m.driver.ledGpio = g
  | .exitDrive => m.driver.ledGpio = g
  | .exitFree => m.driver.ledGpio = g
  | _ => True

instance (g : Int) (m : Module) : ∀ e, Decidable (ReadsOwn g m e)
  | .write _ buf left =>
      inferInstanceAs (Decidable (accepted buf left ≠ none → _))
  | .exitDrive => inferInstanceAs (Decidable (_ = _))
  | .exitFree => inferInstanceAs (Decidable (_ = _))
  | .store _ => inferInstanceAs (Decidable True)
  | .openFile => inferInstanceAs (Decidable True)
  | .releaseFile _ => inferInstanceAs (Decidable True)
  | .read _ _ _ => inferInstanceAs (Decidable True)

/-- No file is open once the unloading has begun. -/
def Closed (m : Module) : Prop :=
  m.exit ≠ .loaded → ∀ (file : Nat) (ppos : Nat),
    m.files[file]? ≠ some (some ppos)

/-- The invariant behind `OwnGpioOnly`: between the two halves of
`pi2_led_exit`, the last call has driven `g` low. -/
structure Keeps (g : Int) (m : Module) : Prop extends OwnGpioOnly g m where
  closed : Closed m
  driven : m.exit = .driven → ∃ before,
    m.driver.gpio = before ++ [.gpioSetValue g false]

theorem loaded_keeps (g : Int) : Keeps g (loaded g) := by
  refine
    { set := fun n value h => ?_
      free := fun n h => ?_
      exit := fun h => by cases h
      closed := fun h => absurd rfl h
      driven := fun h => by cases h }
  · simp [loaded, loadedLed] at h
  · simp [loaded, loadedLed] at h

/-- Everything an event can do: file operations that leave the driver alone,
a store, an accepted write, and the two halves of `pi2_led_exit`. -/
inductive Step (m : Module) : Event → Module → Prop where
  | files (e : Event) (files : List (Option Nat)) (hpc : m.exit = .loaded)
      (he : ∀ g, ReadsOwn g m e) :
      Step m e { m with files := files }
  | store (value : Int) (hpc : m.exit ≠ .unloaded) :
      Step m (.store value)
        { m with driver := { m.driver with ledGpio := value } }
  | write (file : Nat) (buf : Bytes) (left : Nat) (value : Bool)
      (hpc : m.exit = .loaded) (hacc : accepted buf left = some value) :
      Step m (.write file buf left)
        { m with driver :=
          { m.driver.call (.gpioSetValue m.driver.ledGpio value) with
            ledState := value } }
  | exitDrive (hpc : m.exit = .loaded)
      (hfiles : ∀ (file : Nat) (ppos : Nat),
        m.files[file]? ≠ some (some ppos)) :
      Step m .exitDrive
        { m with driver := pi2LedExitDrive m.driver, exit := .driven }
  | exitFree (hpc : m.exit = .driven) :
      Step m .exitFree
        { m with driver := pi2LedExitFree m.driver, exit := .unloaded }

theorem step_cases {m m' : Module} {e : Event} (hclosed : Closed m)
    (h : step m e = some m') : Step m e m' := by
  -- whoever uses an open file finds the module loaded
  have hopen : ∀ (file : Nat) (ppos : Nat),
      m.files[file]? = some (some ppos) → m.exit = .loaded := by
    intro file ppos hfile
    by_cases hpc : m.exit = .loaded
    · exact hpc
    · exact absurd hfile (hclosed hpc file ppos)
  cases e with
  | store value =>
      simp only [step] at h
      split at h
      · cases h
      case isFalse hpc =>
        cases h
        exact .store value hpc
  | openFile =>
      simp only [step] at h
      split at h
      case isTrue hpc =>
        cases h
        exact .files _ _ hpc fun _ => trivial
      · cases h
  | releaseFile file =>
      simp only [step] at h
      split at h
      case h_1 ppos hfile =>
        cases h
        exact .files _ _ (hopen file ppos hfile) fun _ => trivial
      · cases h
  | read file count left =>
      simp only [step] at h
      split at h
      case h_1 ppos hfile =>
        cases h
        exact .files _ _ (hopen file ppos hfile) fun _ => trivial
      · cases h
  | write file buf left =>
      simp only [step] at h
      split at h
      case h_1 ppos hfile =>
        cases h
        have hpc := hopen file ppos hfile
        rcases pi2LedWrite_cases m.driver buf left with
          ⟨value, hacc, hw⟩ | ⟨hacc, code, -, hw⟩
        · rw [hw]
          exact .write file buf left value hpc hacc
        · rw [hw]
          exact .files (.write file buf left) m.files hpc
            fun g hsome => absurd hacc hsome
      · cases h
  | exitDrive =>
      simp only [step] at h
      split at h
      case isTrue hpc =>
        cases h
        refine .exitDrive hpc.1 fun file ppos hfile => ?_
        have hnone := List.all_eq_true.mp hpc.2 _ (List.mem_of_getElem? hfile)
        cases hnone
      · cases h
  | exitFree =>
      simp only [step] at h
      split at h
      case isTrue hpc =>
        cases h
        exact .exitFree hpc
      · cases h

/-- One more call, which sets no GPIO but `g`. -/
theorem Keeps.set_call {g : Int} {m : Module} (h : Keeps g m) {c : GpioCall}
    (hc : ∀ n v, c = .gpioSetValue n v → n = g) (n : Int) (v : Bool)
    (hmem : .gpioSetValue n v ∈ m.driver.gpio ++ [c]) : n = g := by
  rcases List.mem_append.mp hmem with hold | hnew
  · exact h.set n v hold
  · exact hc n v (List.mem_singleton.mp hnew).symm

/-- And which frees none but `g`. -/
theorem Keeps.free_call {g : Int} {m : Module} (h : Keeps g m) {c : GpioCall}
    (hc : ∀ n, c = .gpioFree n → n = g) (n : Int)
    (hmem : .gpioFree n ∈ m.driver.gpio ++ [c]) : n = g := by
  rcases List.mem_append.mp hmem with hold | hnew
  · exact h.free n hold
  · exact hc n (List.mem_singleton.mp hnew).symm

theorem Keeps.step {g : Int} {m m' : Module} {e : Event} (h : Keeps g m)
    (hown : ReadsOwn g m e) (hst : Pi2LedDriver.step m e = some m') :
    Keeps g m' := by
  cases step_cases h.closed hst with
  | files _ files hpc he =>
      exact
        { h with
          closed := fun hne => absurd hpc hne }
  | store value hpc => exact { h with }
  | write file buf left value hpc hacc =>
      have hg : m.driver.ledGpio = g := hown (by rw [hacc]; simp)
      refine
        { set := h.set_call fun n v hc => ?_
          free := h.free_call fun n hc => by cases hc
          exit := fun hex => ?_
          closed := fun hne => absurd hpc hne
          driven := fun hex => ?_ }
      · cases hc
        exact hg
      · rw [hpc] at hex
        cases hex
      · rw [hpc] at hex
        cases hex
  | exitDrive hpc hfiles =>
      have hg : m.driver.ledGpio = g := hown
      refine
        { set := h.set_call fun n v hc => ?_
          free := h.free_call fun n hc => by cases hc
          exit := fun hex => by cases hex
          closed := fun _ => hfiles
          driven := fun _ => ⟨m.driver.gpio, by rw [← hg]; rfl⟩ }
      cases hc
      exact hg
  | exitFree hpc =>
      have hg : m.driver.ledGpio = g := hown
      refine
        { set := h.set_call fun n v hc => by cases hc
          free := h.free_call fun n hc => ?_
          exit := fun _ => ?_
          closed := fun _ => h.closed (by rw [hpc]; decide)
          driven := fun hex => by cases hex }
      · cases hc
        exact hg
      · obtain ⟨before, hbefore⟩ := h.driven hpc
        refine ⟨before, ?_⟩
        show m.driver.gpio ++ [.gpioFree m.driver.ledGpio] = _
        rw [hbefore, hg, List.append_assoc]
        rfl

/-- A read of the parameter at another value ends up in a call. -/
theorem Keeps.not_ownGpioOnly {g : Int} {m m' : Module} {e : Event}
    (h : Keeps g m) (hnot : ¬ ReadsOwn g m e)
    (hst : Pi2LedDriver.step m e = some m') : ¬ OwnGpioOnly g m' := by
  intro hown
  apply hnot
  cases step_cases h.closed hst with
  | files _ files hpc he => exact he g
  | store value hpc => trivial
  | write file buf left value hpc hacc =>
      exact fun _ => hown.set _ value (List.mem_append_right _
        List.mem_cons_self)
  | exitDrive hpc hfiles =>
      exact hown.set _ false (List.mem_append_right _ List.mem_cons_self)
  | exitFree hpc =>
      exact hown.free _ (List.mem_append_right _ List.mem_cons_self)

/-- In every run after a successful `pi2_led_init` with GPIO `g`: the driver
keeps to `g`, and `pi2_led_exit` drives it low and frees it, if and only if
the parameter is `g` whenever an accepted write or `pi2_led_exit` reads
it. -/
theorem ownGpioOnly_iff {r : InitRets} {g : Int} {d : Pi2Led}
    (hinit : pi2LedInit r (unloaded g) = (d, 0)) {es : List Event}
    {m : Module} (hrun : run step ⟨d, [], .loaded⟩ es = some m) :
    Throughout step (OwnGpioOnly g) ⟨d, [], .loaded⟩ es ↔
      Along step (ReadsOwn g) ⟨d, [], .loaded⟩ es := by
  obtain rfl := eq_loadedLed hinit
  exact throughout_iff_along (I := Keeps g)
    (fun _ _ _ h hC hst => h.step hC hst)
    (fun _ h => h.toOwnGpioOnly)
    (fun _ _ _ h hC hst => h.not_ownGpioOnly hC hst)
    (loaded_keeps g) hrun

/-- A `pi2_led_init` in which every call succeeds. -/
def goodRets : InitRets := ⟨true, 0, 0, 0, 0, 0, 0⟩

/-- The LED is switched on and off, and the module is unloaded. -/
def sessionRun : List Event :=
  [ .openFile, .write 0 (ascii "1") 0, .read 0 2 0, .write 0 (ascii "0") 0
  , .releaseFile 0, .exitDrive, .exitFree ]

theorem ownGpioOnly_iff_sessionRun :
    Throughout step (OwnGpioOnly defaultLedGpio) (loaded defaultLedGpio)
      sessionRun := by
  have hsome : (run step (loaded defaultLedGpio) sessionRun).isSome = true := by
    decide +kernel
  obtain ⟨m, hrun⟩ := Option.isSome_iff_exists.mp hsome
  have hiff := ownGpioOnly_iff (r := goodRets) (g := defaultLedGpio)
    (by decide) hrun
  exact hiff.mpr (by decide +kernel)

/-- The parameter is changed to 6, the LED switched on, and the module
unloaded. -/
def storeRun : List Event :=
  [ .store 6, .openFile, .write 0 (ascii "1") 0, .releaseFile 0
  , .exitDrive, .exitFree ]

/-- GPIO 6, which the driver has not requested, is set and freed, and
GPIO 5 is not. -/
theorem storeRun_drivesAnother :
    ∃ m, run step (loaded defaultLedGpio) storeRun = some m ∧
      m.driver.gpio =
        [ .gpioRequest 5, .gpioDirectionOutput 5 false, .gpioSetValue 6 true
        , .gpioSetValue 6 false, .gpioFree 6 ] ∧
      ¬ OwnGpioOnly defaultLedGpio m := by
  have hend : (run step (loaded defaultLedGpio) storeRun).map
      (fun m => m.driver.gpio) = some
        [ .gpioRequest 5, .gpioDirectionOutput 5 false, .gpioSetValue 6 true
        , .gpioSetValue 6 false, .gpioFree 6 ] := by
    decide +kernel
  obtain ⟨m, hrun, hm⟩ := Option.map_eq_some_iff.mp hend
  refine ⟨m, hrun, hm, fun hown => ?_⟩
  have hfreed := hown.free 6 (by rw [hm]; decide)
  exact absurd hfreed (by decide)

end EmbeddedSystem.Team.Pi2LedDriver
