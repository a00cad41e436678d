import RocketAp.ProgramLogic.Bytes
import RocketAp.ProgramLogic.Ensures
import RocketAp.ProgramLogic.Calls
import RocketAp.ProgramLogic.RowMajor
import RocketAp.ProgramLogic.Halving
import RocketAp.ProgramLogic.Nesting
import RocketAp.ProgramLogic.Simulation
import RocketAp.ProgramLogic.Costs
import RocketAp.Device.Registers
import RocketAp.Device.Columns
import RocketAp.Device.Platform
import RocketAp.Device.Assumptions
import RocketAp.Device.Transfers
import RocketAp.Device.CycleCounter
import RocketAp.Device.Measurements
import RocketAp.Hal.Functions
import RocketAp.Hal.Accessors
import RocketAp.Hal.Vectors
import RocketAp.Hal.Protocol
import RocketAp.Hal.Waiting
import RocketAp.Hal.Effects
import RocketAp.Hal.Flushes
import RocketAp.Hal.RowZero
import RocketAp.Kernels.Functions
import RocketAp.Kernels.Chunks
import RocketAp.Kernels.HorizontalTest
import RocketAp.Kernels.RowKernels
import RocketAp.Kernels.MixedRuns
import RocketAp.Kernels.Windows
import RocketAp.Kernels.OuterProducts
import RocketAp.Kernels.Layouts
import RocketAp.Kernels.Evaluation
import RocketAp.Kernels.ColumnRuns
import RocketAp.Kernels.Reduction
import RocketAp.Kernels.References
import RocketAp.Kernels.Verdict
import RocketAp.Kernels.Exactness
import RocketAp.Device.Image
import RocketAp.Kernels.Scratch
import RocketAp.Hal.Agreement
import RocketAp.Hal.Timing
import RocketAp.Hal.ColumnMachine
import RocketAp.Hal.Conformance
import RocketAp.Hal.Discipline
import RocketAp.Hal.Costs
import RocketAp.Kernels.Tests
import RocketAp.Kernels.Agreement
import RocketAp.Kernels.Firmware
import RocketAp.Kernels.Discipline
import RocketAp.Kernels.Costs
import RocketAp.Kernels.EvaluationRuns
import RocketAp.ProgramLogic.Footprint
import RocketAp.ProgramLogic.Shelves
import RocketAp.ProgramLogic.Faults
import RocketAp.ProgramLogic.Frames
import RocketAp.ProgramLogic.Observers
import RocketAp.Hal.Footprints
import RocketAp.Hal.Frames
import RocketAp.Hal.Unread
import RocketAp.Hal.VectorStore
import RocketAp.Hal.Settling
import RocketAp.Hal.Refinement
import RocketAp.Kernels.CycleLog
import RocketAp.Kernels.Overruns
import RocketAp.Kernels.Frames
import RocketAp.Kernels.CrossChecks
import RocketAp.Kernels.Unread
import RocketAp.Kernels.Conformance
import RocketAp.Kernels.Monitored
