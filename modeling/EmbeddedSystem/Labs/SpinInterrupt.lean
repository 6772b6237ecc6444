import EmbeddedSystem.Verified.CallPool
import EmbeddedSystem.Verified.IrqLine
import EmbeddedSystem.Verified.ListWalk
import EmbeddedSystem.Verified.Slab

/-!
# The detections of `spin_interrupt.c`

Every interrupt of the sensor appends a node with the time of day to a list,
every release of a file prints the list, and `spin_interrupt_exit` frees it.
The handler and the releases work on the list under `spinlock`; the release
looks whether the list is empty before it takes the lock, and the exit
function takes no lock.

`SensorIrq` is about the interrupt line of this module alone; here the
handler, the releases and the exit function go on statement by statement, and
an interrupt may come before the `disable_irq` of `spin_interrupt_init`.
-/

set_option autoImplicit false

namespace EmbeddedSystem.Labs.SpinInterrupt

open EmbeddedSystem.Verified
open EmbeddedSystem.Verified.Transition
open EmbeddedSystem.Verified.ListWalk (visit)

/-! ## State -/

/-- `struct timespec` -/
structure Timespec where
  tvSec : Int
  tvNsec : Int
deriving DecidableEq, Repr

/-- `getnstimeofday`, by a clock that counts nanoseconds. -/
def getnstimeofday (now : Int) : Timespec :=
  ⟨now / 1000000000, now % 1000000000⟩

/-- A time in nanoseconds. -/
def Timespec.toNs (t : Timespec) : Int := t.tvSec * 1000000000 + t.tvNsec

theorem toNs_getnstimeofday (now : Int) :
    (getnstimeofday now).toNs = now := by
  show now / 1000000000 * 1000000000 + now % 1000000000 = now
  omega

/-- The next statement of `spin_interrupt_isr`. -/
inductive IsrPc where
  | idle
  | kmalloc
  | lock (node : Nat)
  | stamp (node : Nat)
  | add (node : Nat)
  | unlock
  | leave
deriving DecidableEq, Repr

/-- The next statement of `spin_interrupt_open` or `spin_interrupt_release`.
`disable_irq` waits in `synchronize`. -/
inductive CallPc where
  | enable
  | opened
  | testEmpty
  | lockList
  | first
  | print (pos : Nat) (q : Option Nat) (index : Nat)
  | next (q : Option Nat) (index : Nat)
  | unlock
  | printEmpty
  | disable
  | synchronize
  | released
deriving DecidableEq, Repr

/-- A call of one of the two, with the indices and seconds that it has
printed and whether it has printed that the list is empty.  `checked` and
`seen` are the list when it looked whether it is empty, and the times in the
list when it took the lock; no code reads them. -/
structure Call where
  pc : CallPc
  printed : List (Nat × Int)
  saidEmpty : Bool
  checked : List Nat
  seen : List Timespec
deriving DecidableEq, Repr

/-- The next statement of the loop in `spin_interrupt_exit`. -/
inductive SweepPc where
  | first
  | del (pos : Nat) (q : Option Nat)
  | free (pos : Nat) (q : Option Nat)
  | next (q : Option Nat)
deriving DecidableEq, Repr

/-- The next statement of `spin_interrupt_init`, which has requested its
interrupt and waits in `synchronize`, or of `spin_interrupt_exit`; the module
is `loaded` in between. -/
inductive Stage where
  | disable
  | synchronize
  | loaded
  | cdevDel
  | unregister
  | freeIrq
  | freeGpio
  | sweep (s : SweepPc)
  | returned
deriving DecidableEq, Repr

/-- Who holds `spinlock`. -/
inductive Holder where
  | isr
  | call (i : Nat)
deriving DecidableEq, Repr

/-- The module.  `now` is the clock, `files` counts the open files and
`arrived` the interrupts that the handler was called for.  `stamps` are the
times that the handler has read, one interrupt after another; no code reads
them. -/
structure Module where
  nodes : Slab Timespec
  timeList : List Nat
  spinlock : Option Holder
  line : IrqLine
  sensorRequested : Bool
  now : Int
  files : Nat
  arrived : Nat
  stamps : List Timespec
  isr : IsrPc
  calls : List Call
  stage : Stage
deriving DecidableEq, Repr

/-- `spin_interrupt_init` up to its `disable_irq`.  It returns 0 in any case;
`gpioRet` and `ret` are what `gpio_request_one` and `request_irq` return. -/
def spinInterruptInit (gpioRet ret now : Int) : Module :=
  { nodes := .empty
    timeList := []
    spinlock := none
    line :=
      if ret ≠ 0 then IrqLine.unused.freeIrq else IrqLine.unused.requestIrq
    sensorRequested := gpioRet = 0
    now := now
    files := 0
    arrived := 0
    stamps := []
    isr := .idle
    calls := []
    stage := if ret ≠ 0 then .loaded else .disable }

/-! ## Steps -/

/-- Time passes; an interrupt arrives; the handler goes on, where `junk` is
what its `kmalloc` finds in memory; a file is opened or released; call `i`
goes on; `spin_interrupt_init` or `spin_interrupt_exit` goes on. -/
inductive Move where
  | tick (ns : Nat)
  | interrupt
  | isr (junk : Timespec)
  | openFile
  | releaseFile
  | call (i : Nat)
  | stage
deriving DecidableEq, Repr

/-- `node->time` of the node at `p`. -/
def timeAt (nodes : Slab Timespec) (p : Nat) : Timespec :=
  (nodes.get p).getD ⟨0, 0⟩

/-- A call that begins. -/
def Call.entering (pc : CallPc) : Call := ⟨pc, [], false, [], []⟩

/-- One statement of `spin_interrupt_isr`, with its allocation successful. -/
def spinInterruptIsr (m : Module) (junk : Timespec) : IsrPc → Option Module
  | .idle => none
  | .kmalloc =>
      some { m with
        nodes := m.nodes.kmalloc junk
        isr := .lock m.nodes.fresh }
  | .lock p =>
      if m.spinlock = none then
        some { m with spinlock := some .isr, isr := .stamp p }
      else none
  | .stamp p =>
      some { m with
        nodes := m.nodes.update p fun _ => getnstimeofday m.now
        stamps := m.stamps ++ [getnstimeofday m.now]
        isr := .add p }
  | .add p =>
      some { m with
        nodes := m.nodes.touch p
        timeList := m.timeList ++ [p]
        isr := .unlock }
  | .unlock => some { m with spinlock := none, isr := .leave }
  | .leave => some { m with isr := .idle }

/-- The call `c`, which has number `i`, is at `c'`. -/
def Module.setCall (m : Module) (i : Nat) (c' : Call) : Module :=
  { m with calls := m.calls.set i c' }

/-- The loop over the list comes to `pos`, or to its end. -/
def Call.loop (c : Call) (index : Nat) : Option (Nat × Option Nat) → Call
  | none => { c with pc := .unlock }
  | some (pos, q) => { c with pc := .print pos q index }

/-- The nodes after `q = pos->next`, which reads the node at `pos`. -/
def readLink (nodes : Slab Timespec) :
    Option (Nat × Option Nat) → Slab Timespec
  | none => nodes
  | some (pos, _) => nodes.touch pos

/-- One statement of call `i`. -/
def callStep (m : Module) (i : Nat) (c : Call) : Option Module :=
  match c.pc with
  | .enable =>
      some ({ m with
        line := m.line.enableIrq
        files := m.files + 1 }.setCall i { c with pc := .opened })
  | .opened => none
  | .testEmpty =>
      some (m.setCall i { c with
        pc := if m.timeList = [] then .printEmpty else .lockList
        checked := m.timeList })
  | .lockList =>
      if m.spinlock = none then
        some ({ m with spinlock := some (.call i) }.setCall i { c with
          pc := .first
          seen := m.timeList.map (timeAt m.nodes) })
      else none
  | .first =>
      (visit m.timeList m.timeList.head?).map fun v =>
        { m with nodes := readLink m.nodes v }.setCall i (c.loop 0 v)
  | .print pos q index =>
      some ({ m with nodes := m.nodes.touch pos }.setCall i { c with
        pc := .next q (index + 1)
        printed := c.printed ++ [(index, (timeAt m.nodes pos).tvSec)] })
  | .next q index =>
      (visit m.timeList q).map fun v =>
        { m with nodes := readLink m.nodes v }.setCall i (c.loop index v)
  | .unlock =>
      some ({ m with spinlock := none }.setCall i { c with pc := .disable })
  | .printEmpty =>
      some (m.setCall i { c with pc := .disable, saidEmpty := true })
  | .disable =>
      some ({ m with line := m.line.disableIrq }.setCall i
        { c with pc := .synchronize })
  | .synchronize =>
      if m.isr = .idle then some (m.setCall i { c with pc := .released })
      else none
  | .released => none

/-- The loop of `spin_interrupt_exit` comes to `pos`, or to its end. -/
def Stage.loop : Option (Nat × Option Nat) → Stage
  | none => .returned
  | some (pos, q) => .sweep (.del pos q)

/-- One statement of the loop that frees the list. -/
def sweepStep (m : Module) : SweepPc → Option Module
  | .first =>
      (visit m.timeList m.timeList.head?).map fun v =>
        { m with nodes := readLink m.nodes v, stage := .loop v }
  | .del pos q =>
      some { m with
        nodes := m.nodes.touch pos
        timeList := m.timeList.erase pos
        stage := .sweep (.free pos q) }
  | .free pos q =>
      some { m with nodes := m.nodes.kfree pos, stage := .sweep (.next q) }
  | .next q =>
      (visit m.timeList q).map fun v =>
        { m with nodes := readLink m.nodes v, stage := .loop v }

/-- The call has returned. -/
def CallPc.ended : CallPc → Bool
  | .opened => true
  | .released => true
  | _ => false

/-- No file is open and none is being opened or released. -/
def Module.unused (m : Module) : Bool :=
  m.files == 0 && m.calls.all (·.pc.ended)

/-- One statement of `spin_interrupt_init`, or of `spin_interrupt_exit`, which
is called when no file is open.  `disable_irq` and `free_irq` wait for a
handler that is running. -/
def stageStep (m : Module) : Stage → Option Module
  | .disable =>
      some { m with line := m.line.disableIrq, stage := .synchronize }
  | .synchronize =>
      if m.isr = .idle then some { m with stage := .loaded } else none
  | .loaded => if m.unused then some { m with stage := .cdevDel } else none
  | .cdevDel => some { m with stage := .unregister }
  | .unregister => some { m with stage := .freeIrq }
  | .freeIrq =>
      if m.isr = .idle then
        some { m with line := m.line.freeIrq, stage := .freeGpio }
      else none
  | .freeGpio =>
      some { m with sensorRequested := false, stage := .sweep .first }
  | .sweep s => sweepStep m s
  | .returned => none

/-- One step of the module.  The handler is called only while it is installed,
and it is not re-entered; the depth of the line, which keeps more interrupts
away, is left to `SensorIrq`.  Files are opened and released only between
`spin_interrupt_init` and `spin_interrupt_exit`. -/
def step (m : Module) : Move → Option Module
  | .tick ns => some { m with now := m.now + ns }
  | .interrupt =>
      if m.line.handled = true ∧ m.isr = .idle then
        some { m with isr := .kmalloc, arrived := m.arrived + 1 }
      else none
  | .isr junk => spinInterruptIsr m junk m.isr
  | .openFile =>
      if m.stage = .loaded then
        some { m with calls := m.calls ++ [.entering .enable] }
      else none
  | .releaseFile =>
      if m.stage = .loaded ∧ 0 < m.files then
        some { m with
          files := m.files - 1
          calls := m.calls ++ [.entering .testEmpty] }
      else none
  | .call i =>
      match m.calls[i]? with
      | none => none
      | some c => callStep m i c
  | .stage => stageStep m m.stage

end EmbeddedSystem.Labs.SpinInterrupt
