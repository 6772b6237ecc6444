import EmbeddedSystem.Verified.Transition
import EmbeddedSystem.Verified.CallPool
import EmbeddedSystem.Verified.ModuleInit
import EmbeddedSystem.Verified.ModuleRef
import EmbeddedSystem.Verified.Long
import EmbeddedSystem.Verified.Uaccess
import EmbeddedSystem.Verified.WaitQueue
import EmbeddedSystem.Verified.WaitOrder
import EmbeddedSystem.Verified.WakeUps
import EmbeddedSystem.Verified.Slab
import EmbeddedSystem.Verified.ListWalk
import EmbeddedSystem.Verified.ListHead
import EmbeddedSystem.Verified.LinkedSlab
import EmbeddedSystem.Verified.NodeHeap
import EmbeddedSystem.Verified.SectionLog
import EmbeddedSystem.Verified.RwLock
import EmbeddedSystem.Verified.SharedCell
import EmbeddedSystem.Verified.FifoHistory
import EmbeddedSystem.Verified.Mailbox
import EmbeddedSystem.Verified.IrqLine
import EmbeddedSystem.Verified.GpioLine
import EmbeddedSystem.Verified.KernelTimer
import EmbeddedSystem.Verified.SelfTimer
import EmbeddedSystem.Verified.TimerLog
import EmbeddedSystem.Verified.Tasklet
import EmbeddedSystem.Verified.Kthread
import EmbeddedSystem.Verified.Workqueue
import EmbeddedSystem.Verified.CString
import EmbeddedSystem.Verified.CBuffer
import EmbeddedSystem.Verified.Sscanf
import EmbeddedSystem.Verified.ScanDecimal
import EmbeddedSystem.Verified.Programs
import EmbeddedSystem.Verified.Recorded
import EmbeddedSystem.Verified.ExclusiveUse
import EmbeddedSystem.Verified.BoundedCounter
import EmbeddedSystem.Labs.Ch3Queue
import EmbeddedSystem.Labs.Ch3Answers
import EmbeddedSystem.Labs.Ch3Linear
import EmbeddedSystem.Labs.Ch3Programs
import EmbeddedSystem.Labs.Ch4Queue
import EmbeddedSystem.Labs.Ch4Account
import EmbeddedSystem.Labs.Ch4Order
import EmbeddedSystem.Labs.Ch4Delivery
import EmbeddedSystem.Labs.Ch4Wakeup
import EmbeddedSystem.Labs.Ch4Ownership
import EmbeddedSystem.Labs.Ch4Links
import EmbeddedSystem.Labs.Ch4Programs
import EmbeddedSystem.Labs.SimpleLinkedList
import EmbeddedSystem.Labs.SimpleSpin
import EmbeddedSystem.Labs.SimpleSpinSlot
import EmbeddedSystem.Labs.SimpleBlock1
import EmbeddedSystem.Labs.SimpleBlock1Values
import EmbeddedSystem.Labs.SimpleBlock1Wakeup
import EmbeddedSystem.Labs.SimpleBlock2
import EmbeddedSystem.Labs.SimpleBlock2Sleepers
import EmbeddedSystem.Labs.DeviceInit
import EmbeddedSystem.Labs.DeviceExit
import EmbeddedSystem.Labs.Ch7Light
import EmbeddedSystem.Labs.Ch7Unload
import EmbeddedSystem.Labs.TimerUnload
import EmbeddedSystem.Labs.TimerRounds
import EmbeddedSystem.Labs.SimpleTasklet
import EmbeddedSystem.Labs.SimpleTaskletRuns
import EmbeddedSystem.Labs.SimpleKthread
import EmbeddedSystem.Labs.SimpleWorkqueue
import EmbeddedSystem.Labs.SensorIrq
import EmbeddedSystem.Labs.SpinInterrupt
import EmbeddedSystem.Labs.SpinInterruptInv
import EmbeddedSystem.Labs.SpinInterruptLog
import EmbeddedSystem.Labs.SimpleRcu
import EmbeddedSystem.Labs.SimpleRcuOwners
import EmbeddedSystem.Labs.SimpleRcuReaders
import EmbeddedSystem.Labs.SimpleRcuVersions
import EmbeddedSystem.Labs.ReadWriteApp
import EmbeddedSystem.Labs.SimpleRcuApp
import EmbeddedSystem.Labs.SimpleRcuUnload
import EmbeddedSystem.Labs.SimpleRwlock
import EmbeddedSystem.Labs.SimpleRwlockVersions
import EmbeddedSystem.Labs.SimpleRwlockApp
import EmbeddedSystem.Labs.StepMotor
import EmbeddedSystem.Labs.StepPhase
import EmbeddedSystem.Labs.StepCompose
import EmbeddedSystem.Labs.StepRotor
import EmbeddedSystem.Labs.OpenModify
import EmbeddedSystem.Labs.ReadFile
import EmbeddedSystem.Labs.OpenModifyApp
import EmbeddedSystem.Labs.Ch2Calculator
import EmbeddedSystem.Labs.Ch2Race
import EmbeddedSystem.Labs.SensorSession
import EmbeddedSystem.Labs.Ch11Proc
import EmbeddedSystem.Labs.SimpleProc
import EmbeddedSystem.Labs.SimpleSysfs
import EmbeddedSystem.Labs.ProcRoundTrip
import EmbeddedSystem.Team.ServerPiApp
import EmbeddedSystem.Team.Occupancy
import EmbeddedSystem.Team.Drift
import EmbeddedSystem.Team.Pi2LedDriver
import EmbeddedSystem.Team.ServerMain
import EmbeddedSystem.Team.LedRegister
import EmbeddedSystem.Team.InsideLed
import EmbeddedSystem.Labs.SharedPins
