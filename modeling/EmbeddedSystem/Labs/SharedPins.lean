import EmbeddedSystem.Verified.ExclusiveUse

/-!
# One board, eleven modules

The modules of the labs are written for the same wiring: `ch6`, `ch7`,
`simple_led` and `pi2_led_driver` have their LED on GPIO 5, `ch6`,
`simple_switch` and `switch_irq` their switch on GPIO 12, and the sensor of
`ch7`, `simple_sensor` and `spin_interrupt` and the switch of `simple_tasklet`
and `simple_workqueue` are on GPIO 17.  An interrupt line that is not shared
has one handler, and all modules pass NULL for `dev_id`, so `free_irq` removes
whatever handler there is.

Only `ch6`, `ch7` and `pi2_led_driver` look at the results of their requests.
They can be loaded and unloaded in any order.  The others are safe exactly as
long as they get what they request (`modules_apart`).
-/

set_option autoImplicit false

namespace EmbeddedSystem.Labs.SharedPins

open EmbeddedSystem.Verified.Transition
open EmbeddedSystem.Verified.ExclusiveUse

inductive Resource where
  | gpio (n : Nat)
  /-- the interrupt line of a GPIO -/
  | irq (gpio : Nat)
deriving DecidableEq, Repr

/-! ## Init and exit functions -/

/-- `ch6_init` and `ch6_exit` -/
def ch6 : Module Resource where
  init :=
    [ .request (.gpio 5) (.giveUp [])
    , .request (.gpio 12) (.giveUp [.gpio 5]) ]
  exit := [.gpio 12, .gpio 5]
  once := by decide
  undoes := by decide
  returns := by decide

/-- `ch7_mod_init` and `ch7_mod_exit`; the calls are `gpio_direction_input`,
`gpio_direction_output` and `gpio_to_irq`. -/
def ch7Mod : Module Resource where
  init :=
    [ .request (.gpio 17) (.giveUp [])
    , .call [.gpio 17]
    , .request (.gpio 5) (.giveUp [.gpio 17])
    , .call [.gpio 5, .gpio 17]
    , .call [.gpio 5, .gpio 17]
    , .request (.irq 17) (.giveUp [.gpio 5, .gpio 17]) ]
  exit := [.irq 17, .gpio 5, .gpio 17]
  once := by decide
  undoes := by decide
  returns := by decide

/-- `pi2_led_init` and `pi2_led_exit`, with the default of `led_gpio`; the
calls are `gpio_is_valid`, `gpio_direction_output`, `alloc_chrdev_region`,
`cdev_add`, `class_create` and `device_create`. -/
def pi2Led : Module Resource where
  init :=
    [ .call []
    , .request (.gpio 5) (.giveUp [])
    , .call [.gpio 5]
    , .call [.gpio 5]
    , .call [.gpio 5]
    , .call [.gpio 5]
    , .call [.gpio 5] ]
  exit := [.gpio 5]
  once := by decide
  undoes := by decide
  returns := by decide

/-- `simple_motor_init` and `simple_motor_exit` of ch9 -/
def simpleMotor : Module Resource where
  init :=
    [ .request (.gpio 6) .ignore
    , .request (.gpio 13) .ignore
    , .request (.gpio 19) .ignore
    , .request (.gpio 26) .ignore ]
  exit := [.gpio 6, .gpio 13, .gpio 19, .gpio 26]
  once := by decide
  undoes := by decide
  returns := by decide

/-- An init function that requests one GPIO and does not look at the
result. -/
def onePin (n : Nat) : Module Resource where
  init := [.request (.gpio n) .ignore]
  exit := [.gpio n]
  once := by simp [requests]
  undoes := trivial
  returns := List.Perm.refl _

/-- `simple_led_init` and `simple_led_exit` -/
def simpleLed : Module Resource := onePin 5

/-- `simple_switch_init` and `simple_switch_exit` -/
def simpleSwitch : Module Resource := onePin 12

/-- An init function that requests one GPIO and its interrupt, and calls
`free_irq` when that fails. -/
def onePinIrq (n : Nat) : Module Resource where
  init := [.request (.gpio n) .ignore, .request (.irq n) .free]
  exit := [.irq n, .gpio n]
  once := by simp [requests]
  undoes := trivial
  returns := List.Perm.swap _ _ _

/-- `switch_irq_init` and `switch_irq_exit` -/
def switchIrq : Module Resource := onePinIrq 12

/-- `simple_sensor_init` and `simple_sensor_exit` -/
def simpleSensor : Module Resource := onePinIrq 17

/-- `spin_interrupt_init` and `spin_interrupt_exit` -/
def spinInterrupt : Module Resource := onePinIrq 17

/-- `simple_tasklet_init` and `simple_tasklet_exit` -/
def simpleTasklet : Module Resource := onePinIrq 17

/-- `simple_workqueue_init` and `simple_workqueue_exit` -/
def simpleWorkqueue : Module Resource := onePinIrq 17

inductive Name where
  | ch6
  | ch7
  | pi2Led
  | simpleMotor
  | simpleLed
  | simpleSwitch
  | switchIrq
  | simpleSensor
  | spinInterrupt
  | simpleTasklet
  | simpleWorkqueue
deriving DecidableEq, Repr

def labModule : Name → Module Resource
  | .ch6 => SharedPins.ch6
  | .ch7 => ch7Mod
  | .pi2Led => SharedPins.pi2Led
  | .simpleMotor => SharedPins.simpleMotor
  | .simpleLed => SharedPins.simpleLed
  | .simpleSwitch => SharedPins.simpleSwitch
  | .switchIrq => SharedPins.switchIrq
  | .simpleSensor => SharedPins.simpleSensor
  | .spinInterrupt => SharedPins.spinInterrupt
  | .simpleTasklet => SharedPins.simpleTasklet
  | .simpleWorkqueue => SharedPins.simpleWorkqueue

/-! ## The result -/

def board : State Resource Name → Event Name → Option (State Resource Name) :=
  step labModule

/-- The modules that check every request. -/
def careful : List Name := [.ch6, .ch7, .pi2Led]

theorem checked_of_careful {m : Name} (h : m ∈ careful) :
    Checked (labModule m).init := by
  cases m with
  | ch6 => exact ⟨rfl, rfl, trivial⟩
  | ch7 => exact ⟨rfl, rfl, rfl, trivial⟩
  | pi2Led => exact ⟨rfl, trivial⟩
  | _ => exact absurd h (by decide)

/-- `ch6` and `ch7` are loaded at the same time.  `ch7` gets the sensor, `ch6`
the LED, so `ch7` gives up. -/
def ledRace : List (Event Name) :=
  List.flatten
    [ [.insmod .ch7, .next .ch7 true, .insmod .ch6, .next .ch6 true]
    , [.next .ch7 true, .next .ch7 true, .next .ch6 true, .next .ch6 true]
    , List.replicate 2 (.next .ch7 true) ]

/-- `simple_sensor` is loaded, and then `simple_tasklet`, which finds the
GPIO and its interrupt taken. -/
def secondHandler : List (Event Name) :=
  List.flatten
    [ .insmod .simpleSensor :: List.replicate 3 (.next .simpleSensor true)
    , .insmod .simpleTasklet :: List.replicate 3 (.next .simpleTasklet true) ]

/-- Both are loaded, and nobody handles the interrupt. -/
example : (run board boot secondHandler).map (fun s =>
    (s.phase .simpleSensor, s.phase .simpleTasklet, s.holder (.irq 17))) =
    some (.loaded, .loaded, none) := by decide +kernel

end EmbeddedSystem.Labs.SharedPins
