import DmaController.Address
import DmaController.Bench.Agenda
import DmaController.Channel.Register
import DmaController.ChannelMask
import DmaController.CommandLine
import DmaController.Console.Basic
import DmaController.Controller
import DmaController.LineTransfer.Frame
import DmaController.Main
import DmaController.Memory
import DmaController.Proofs.Console.Beside
import DmaController.Proofs.Console.Countdown
import DmaController.Proofs.Console.Ended
import DmaController.Proofs.Console.IdlingInParts
import DmaController.Proofs.Console.InBounds
import DmaController.Proofs.Console.Level
import DmaController.Proofs.Console.Operations
import DmaController.Proofs.Console.Port
import DmaController.Proofs.Console.PortCopy
import DmaController.Proofs.Console.Reached
import DmaController.Proofs.Console.RegisterFile
import DmaController.Proofs.Console.Restore
import DmaController.Proofs.Console.Stopped
import DmaController.Proofs.Console.Timetable
import DmaController.Proofs.LineTransfer.Counter
import DmaController.Proofs.LineTransfer.Level
import DmaController.Proofs.LineTransfer.Run
import DmaController.Proofs.LineTransfer.Split
import DmaController.Proofs.LineTransfer.Tariff
import DmaController.Proofs.LineTransfer.Unseen
import DmaController.Proofs.Reach.Banks
import DmaController.Proofs.Reach.Registers
import DmaController.Proofs.Script.Failures
import DmaController.Proofs.Script.Renderings
import DmaController.Proofs.Transfer.Aborted
import DmaController.Proofs.Transfer.Collect
import DmaController.Proofs.Transfer.Collision
import DmaController.Proofs.Transfer.Discipline
import DmaController.Proofs.Transfer.Forward
import DmaController.Proofs.Transfer.OneShot
import DmaController.Proofs.Transfer.Owned
import DmaController.Proofs.Transfer.Stream
import DmaController.Proofs.Transfer.Timeline
import DmaController.Proofs.Transfer.Undecoded
import DmaController.Proofs.Transfer.Undisturbed
import DmaController.Rig
import DmaController.Script.Reader
import DmaController.Script.Run
import DmaController.Transfer.Run
