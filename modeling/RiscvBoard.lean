import RiscvBoard.Main
import RiscvBoard.Proofs.Bits
import RiscvBoard.Proofs.Ram
import RiscvBoard.Proofs.Paging.Walk
import RiscvBoard.Proofs.Paging.Marks
import RiscvBoard.Proofs.Paging.Transparency
import RiscvBoard.Proofs.Machine.Storing
import RiscvBoard.Proofs.Machine.Memory
import RiscvBoard.Proofs.Machine.Execute
import RiscvBoard.Proofs.Machine.Hart
import RiscvBoard.Proofs.Machine.Step
import RiscvBoard.Proofs.Machine.PreciseTraps
import RiscvBoard.Proofs.Csr.Access
import RiscvBoard.Proofs.Machine.Isolation
import RiscvBoard.Proofs.Csr.WellFormed
import RiscvBoard.Proofs.Machine.WellFormed
import RiscvBoard.Proofs.Isa.Architecture
import RiscvBoard.Proofs.Isa.Embedding
import RiscvBoard.Proofs.Isa.Arithmetic
import RiscvBoard.Proofs.Machine.Integer
import RiscvBoard.Proofs.Paging.Scheme
import RiscvBoard.Proofs.Board.Windows
import RiscvBoard.Proofs.Machine.LoadEffects
import RiscvBoard.Proofs.Machine.Straddling
import RiscvBoard.Proofs.Isa.Encoding
import RiscvBoard.Proofs.Isa.RoundTrip
import RiscvBoard.Proofs.Bytes
import RiscvBoard.Proofs.Region
import RiscvBoard.Proofs.Board.QueueLayout
import RiscvBoard.Proofs.Board.BlockRequest
import RiscvBoard.Proofs.Board.QueueRound
import RiscvBoard.Proofs.Board.Completions
import RiscvBoard.Proofs.Board.Repetition
import RiscvBoard.Proofs.Board.Containment
import RiscvBoard.Proofs.Board.Transfers
import RiscvBoard.Proofs.Board.Arbitration
import RiscvBoard.Proofs.Machine.EffectivePrivilege
import RiscvBoard.Proofs.Isa.Expansion
import RiscvBoard.Proofs.Machine.ShortForms
import RiscvBoard.Proofs.Machine.Frames
import RiscvBoard.Proofs.Machine.Reservation
import RiscvBoard.Proofs.Machine.BoundedRuns
import RiscvBoard.Proofs.Machine.TrapReturn
import RiscvBoard.Proofs.Machine.InterruptSelection
import RiscvBoard.Proofs.Paging.Probing
import RiscvBoard.Proofs.LittleEndian
import RiscvBoard.Proofs.Paging.Stability
import RiscvBoard.Proofs.Machine.AllOrNothing
import RiscvBoard.Proofs.Machine.DirtyBit
import RiscvBoard.Proofs.Machine.ByteTranslation
import RiscvBoard.Proofs.Machine.ByteAccess
import RiscvBoard.Proofs.Machine.Inspection
import RiscvBoard.Proofs.Elf.Loading
import RiscvBoard.Proofs.DeviceTree.Reader
import RiscvBoard.Proofs.DeviceTree.Flattening
import RiscvBoard.Proofs.Machine.Writing
import RiscvBoard.Proofs.Machine.Transmission
import RiscvBoard.Proofs.CommandLine.Draining
import RiscvBoard.Proofs.Board.Verdicts
import RiscvBoard.Proofs.Machine.FatalTraps
import RiscvBoard.Proofs.Machine.ExitWord
import RiscvBoard.Proofs.Board.Observation
import RiscvBoard.Proofs.Csr.WriteBack
import RiscvBoard.Proofs.Machine.ControlStates
import RiscvBoard.Proofs.Machine.ControlRegisters
import RiscvBoard.Proofs.Machine.PendingInterrupts
import RiscvBoard.Proofs.Machine.Disassembly
import RiscvBoard.Proofs.Board.Notifications
import RiscvBoard.Proofs.Machine.NotifiedRuns
import RiscvBoard.Proofs.Board.Termination
import RiscvBoard.Proofs.Board.QueueArithmetic
import RiscvBoard.Proofs.Board.SerialLine
import RiscvBoard.Proofs.Paging.CacheHistory
import RiscvBoard.Proofs.Machine.RegisterFile
import RiscvBoard.Proofs.Numerals
import RiscvBoard.Proofs.Isa.Mnemonics
import RiscvBoard.Proofs.Isa.Assembly
