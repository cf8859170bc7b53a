import LidarCar.Slam.Decode
import LidarCar.Slam.Abandon
import LidarCar.Drive.Move
import LidarCar.Master.Decision
import LidarCar.Drive.Controller
import LidarCar.Base.Transition
import LidarCar.Drive.Handover
import LidarCar.Drive.Loop
import LidarCar.Base.Circular
import LidarCar.Serial.Receive
import LidarCar.Base.Pattern
import LidarCar.Scan.System
import LidarCar.Slam.Exit
import LidarCar.Scan.Streaming
import LidarCar.Scan.Handoff
import LidarCar.Drive.SpeedMutex
import LidarCar.Master.Swing
import LidarCar.Drive.Balance
import LidarCar.Base.Bytes
import LidarCar.Telemetry.Report
import LidarCar.Slam.Bounds
import LidarCar.Base.Hunt
import LidarCar.Slam.Capacity
import LidarCar.Slam.Resync
import LidarCar.Slam.CheckWord
import LidarCar.Master.Measurements
import LidarCar.Base.Channel
import LidarCar.Scan.Port
import LidarCar.Drive.Positional
import LidarCar.Drive.Brake
import LidarCar.Drive.Encoder
import LidarCar.Base.Arc
import LidarCar.Slam.Angles
import LidarCar.Master.Mirror
import LidarCar.Serial.Wireless
import LidarCar.Serial.Open
import LidarCar.Base.Stages
import LidarCar.Imu.I2c
import LidarCar.Imu.Bringup
import LidarCar.Imu.Axes
import LidarCar.Imu.Magnetometer
import LidarCar.Base.Chain
import LidarCar.Base.Roster
import LidarCar.Kernel.Pool
import LidarCar.Kernel.Suspend
import LidarCar.Kernel.Mq
import LidarCar.Kernel.MqHistory
import LidarCar.Kernel.MqWakeup
import LidarCar.Kernel.MqAlone
import LidarCar.Kernel.Contention
import LidarCar.Kernel.Inheritance
import LidarCar.Scan.Decisions
import LidarCar.Base.Agenda
import LidarCar.Kernel.Timer
import LidarCar.Kernel.Deadlines
import LidarCar.Kernel.TimerCheck
import LidarCar.Kernel.Events
import LidarCar.Base.TwoWire
import LidarCar.I2c.BitOps
import LidarCar.I2c.Wires
import LidarCar.I2c.Conversation
import LidarCar.I2c.Registers
import LidarCar.Imu.OnLines
import LidarCar.Base.Store
import LidarCar.Base.Segments
import LidarCar.Kernel.Heap
import LidarCar.Kernel.HeapLayout
import LidarCar.Kernel.HeapSteps
import LidarCar.Kernel.Malloc
import LidarCar.Kernel.Allocator
import LidarCar.Kernel.Realloc
import LidarCar.Kernel.Allocations
