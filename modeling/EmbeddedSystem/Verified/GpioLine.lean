/-!
# GPIO lines

An output line has a level and may be requested by a driver.  Two things are
recorded beside that for statements about runs: how often the level rose, and
how many `gpio_set_value` calls met a line that nobody had requested.  For an
input line that is the number of `gpio_get_value` calls that did.

Where a program computes the number of the GPIO it works on, what matters is
which numbers it has passed to the GPIO library so far.  The record of its
successful calls says that, and it also says what level a GPIO has: the one
it was last driven to.
-/

set_option autoImplicit false

namespace EmbeddedSystem.Verified

structure GpioLine where
  level : Bool
  requested : Bool
  rises : Nat
  strays : Nat
deriving DecidableEq, Repr

namespace GpioLine

/-- A line before anybody requests it. -/
def unused (level : Bool) : GpioLine := ⟨level, false, 0, 0⟩

/-- `gpio_request`, when it succeeds. -/
def gpioRequest (l : GpioLine) : GpioLine := { l with requested := true }

/-- `gpio_free`. -/
def gpioFree (l : GpioLine) : GpioLine := { l with requested := false }

/-- `gpio_set_value`. -/
def gpioSetValue (l : GpioLine) (value : Bool) : GpioLine :=
  { l with
    level := value
    rises := if !l.level && value then l.rises + 1 else l.rises
    strays := if l.requested then l.strays else l.strays + 1 }

/-- `gpio_direction_output`, when it succeeds. -/
def gpioDirectionOutput (l : GpioLine) (value : Bool) : GpioLine :=
  { l with
    level := value
    rises := if !l.level && value then l.rises + 1 else l.rises }

@[simp] theorem level_gpioSetValue (l : GpioLine) (value : Bool) :
    (l.gpioSetValue value).level = value := rfl

/-- Driving a line low is no rise. -/
@[simp] theorem rises_gpioSetValue_false (l : GpioLine) :
    (l.gpioSetValue false).rises = l.rises := by
  simp [gpioSetValue]

/-- Driving a line high is a rise if the line was low. -/
theorem rises_gpioSetValue_true (l : GpioLine) :
    (l.gpioSetValue true).rises =
      if l.level then l.rises else l.rises + 1 := by
  cases h : l.level <;> simp [gpioSetValue, h]

theorem strays_gpioSetValue {l : GpioLine} (h : l.requested = true)
    (value : Bool) : (l.gpioSetValue value).strays = l.strays := by
  simp [gpioSetValue, h]

end GpioLine

/-- An input line; the level is up to what is connected to it. -/
structure GpioInput where
  requested : Bool
  strays : Nat
deriving DecidableEq, Repr

namespace GpioInput

/-- A line before anybody requests it. -/
def unused : GpioInput := ⟨false, 0⟩

def gpioRequest (l : GpioInput) : GpioInput := { l with requested := true }

def gpioFree (l : GpioInput) : GpioInput := { l with requested := false }

/-- `gpio_get_value`. -/
def gpioGetValue (l : GpioInput) : GpioInput :=
  { l with strays := if l.requested then l.strays else l.strays + 1 }

theorem strays_gpioGetValue {l : GpioInput} (h : l.requested = true) :
    l.gpioGetValue.strays = l.strays := by
  simp [gpioGetValue, h]

end GpioInput

/-! ## Calls to the GPIO library, by number -/

/-- A successful call, with the number of the GPIO. -/
inductive GpioCall where
  | gpioRequest (n : Int)
  | gpioDirectionOutput (n : Int) (value : Bool)
  | gpioSetValue (n : Int) (value : Bool)
  | gpioFree (n : Int)
deriving DecidableEq, Repr

namespace GpioCall

/-- The level that the call drives GPIO `n` to. -/
def drives (n : Int) : GpioCall → Option Bool
  | .gpioRequest _ => none
  | .gpioDirectionOutput m value => if m = n then some value else none
  | .gpioSetValue m value => if m = n then some value else none
  | .gpioFree _ => none

/-- The level of GPIO `n` after the calls, if they have driven it. -/
def level (n : Int) (calls : List GpioCall) : Option Bool :=
  (calls.filterMap (drives n)).getLast?

/-- A GPIO that is set has the level it was set to. -/
theorem level_gpioSetValue (n : Int) (calls : List GpioCall) (value : Bool) :
    level n (calls ++ [.gpioSetValue n value]) = some value := by
  unfold level
  rw [List.filterMap_append]
  simp [drives]

end GpioCall

end EmbeddedSystem.Verified
