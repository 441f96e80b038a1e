import Patchbay.Main
import Patchbay.Proofs.Bench.Inverting
import Patchbay.Proofs.Bench.Ownership
import Patchbay.Proofs.Button
import Patchbay.Proofs.Config.ReadBack
import Patchbay.Proofs.Connection.Addressing
import Patchbay.Proofs.Connection.Calling
import Patchbay.Proofs.Connection.Definition
import Patchbay.Proofs.Connection.Manual
import Patchbay.Proofs.Connection.Naming
import Patchbay.Proofs.Expr.Bytewise
import Patchbay.Proofs.Expr.Numbers
import Patchbay.Proofs.Expr.Precedence
import Patchbay.Proofs.Expr.Printing
import Patchbay.Proofs.Gamepad.Encoding
import Patchbay.Proofs.Gamepad.LastEvent
import Patchbay.Proofs.Gamepad.Polling
import Patchbay.Proofs.Gamepad.Ranges
import Patchbay.Proofs.Gamepad.Rejecting
import Patchbay.Proofs.Motor.Bridge
import Patchbay.Proofs.Motor.Resting
import Patchbay.Proofs.Output.Holding
import Patchbay.Proofs.Output.Periods
import Patchbay.Proofs.Output.Ranges
import Patchbay.Proofs.Program.Period
import Patchbay.Proofs.Rig.Build
import Patchbay.Proofs.Rig.Faults
import Patchbay.Proofs.Rig.Halting
import Patchbay.Proofs.Rig.Hearing
import Patchbay.Proofs.Rig.Renaming
import Patchbay.Proofs.Rig.Reordering
import Patchbay.Proofs.Scheduler.Pacing
import Patchbay.Proofs.Scheduler.Stopping
import Patchbay.Proofs.Timer
