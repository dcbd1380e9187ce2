import RodActuator.Lib.Nor
import RodActuator.Param.Manager
import RodActuator.Param.Slots
import RodActuator.Param.Records
import RodActuator.Param.Attempt
import RodActuator.Param.Boot
import RodActuator.Param.Packed
import RodActuator.Param.History
import RodActuator.Param.BadSpots
import RodActuator.Param.PowerLoss
import RodActuator.Lib.Binary32
import RodActuator.Rod.Position
import RodActuator.Param.Origin
import RodActuator.Param.Rod
import RodActuator.Arb.Kernel
import RodActuator.Arb.Reference
import RodActuator.StateEngine
import RodActuator.Sys.Dispatch
import RodActuator.Sys.FaultGate
import RodActuator.Power.BusVoltage
import RodActuator.Arb.Arbiter
import RodActuator.Lib.Transition
import RodActuator.Sys.World
import RodActuator.Sys.Voltage
import RodActuator.Sys.Brake
import RodActuator.Sys.Limit
import RodActuator.Sys.Release
import RodActuator.Sys.ZeroOutput
import RodActuator.Sys.AutoRecovery
import RodActuator.Sys.Resync
import RodActuator.Arb.Capacity
import RodActuator.Arb.Queue
import RodActuator.Arb.Pins
import RodActuator.Sys.Stop
import RodActuator.Param.Log
import RodActuator.Param.Sectors
import RodActuator.Param.Append
import RodActuator.Sys.StallClear
import RodActuator.Sys.ErrorCode
import RodActuator.Power.Debounce
import RodActuator.Lib.Streak
import RodActuator.Power.Hysteresis
import RodActuator.Lib.Ieee754
import RodActuator.Power.BadBus
import RodActuator.Power.CurSensor
import RodActuator.Power.Inrush
import RodActuator.Sys.Calibration
import RodActuator.Rod.Notices
import RodActuator.Adp.Timebase
import RodActuator.Adp.Timestamp
import RodActuator.Motor.Hall
import RodActuator.Motor.Intervals
import RodActuator.Adp.Adc
import RodActuator.Lib.Ring
import RodActuator.Adp.SlidingMean
import RodActuator.Lib.CText
import RodActuator.Sys.EventName
import RodActuator.Motor.Pwm
import RodActuator.Motor.Ramp
import RodActuator.Lib.SampleWord
import RodActuator.Rod.Hall
import RodActuator.Rod.HallDebounce
import RodActuator.Motor.Task
import RodActuator.Motor.Pulses
import RodActuator.Motor.Direction
import RodActuator.Lib.IeeeBounds
import RodActuator.Motor.Stopped
import RodActuator.Arb.Mailbox
import RodActuator.Rtos.Event
import RodActuator.Rtos.QueueRun
import RodActuator.Sys.EventWorld
import RodActuator.Lib.Stretch
import RodActuator.Param.FillTest
import RodActuator.Rod.Motion
import RodActuator.Rtt.Numeral
import RodActuator.Rtt.Printf
import RodActuator.Rtt.UpBuffer
import RodActuator.Task.Heartbeat
import RodActuator.Task.Registry
import RodActuator.Lib.SerialTime
import RodActuator.Rtos.Scheduler
import RodActuator.Rtos.ThreadRun
import RodActuator.Lib.HeapBlock
import RodActuator.Rtos.HeapRun
