import RegisterMachine.Bytes
import RegisterMachine.Numeral
import RegisterMachine.Instruction
import RegisterMachine.Memory
import RegisterMachine.Error
import RegisterMachine.Machine
import RegisterMachine.Event
import RegisterMachine.Execution
import RegisterMachine.Run
import RegisterMachine.Demo
import RegisterMachine.Monitor
import RegisterMachine.Numeral.Quantity
import RegisterMachine.Numeral.Reading
import RegisterMachine.Numeral.CodePoint
import RegisterMachine.Assembly.Scan
import RegisterMachine.Assembly.Statement
import RegisterMachine.Assembly.Draft
import RegisterMachine.Assembly.Warning
import RegisterMachine.Listing
import RegisterMachine.Files
import RegisterMachine.Tool.Assembler
import RegisterMachine.Tool.Lister
import RegisterMachine.Tool.Launcher
import RegisterMachine.Main
import RegisterMachine.Proofs.Effects
import RegisterMachine.Proofs.Actions
import RegisterMachine.Proofs.Fetching
import RegisterMachine.Proofs.Composition
import RegisterMachine.Proofs.Footprints
import RegisterMachine.Proofs.Operands
import RegisterMachine.Proofs.Runs
import RegisterMachine.Proofs.Numerals
import RegisterMachine.Proofs.Scanning
import RegisterMachine.Proofs.Forms
import RegisterMachine.Proofs.Program
import RegisterMachine.Proofs.Drafting
import RegisterMachine.Proofs.TwoPass
import RegisterMachine.Proofs.Entries
import RegisterMachine.Proofs.Escapes
import RegisterMachine.Proofs.RoundTrip
import RegisterMachine.Proofs.Decoding
import RegisterMachine.Proofs.Layout
import RegisterMachine.Proofs.Simulation
import RegisterMachine.Proofs.Refinement
import RegisterMachine.Proofs.Normalisation
import RegisterMachine.Proofs.Commands
import RegisterMachine.Proofs.Characters
import RegisterMachine.Proofs.Explanations
import RegisterMachine.Proofs.Offsets
import RegisterMachine.Proofs.StackOperations
import RegisterMachine.Proofs.Segments
import RegisterMachine.Proofs.Calls
import RegisterMachine.Proofs.Limits
import RegisterMachine.Proofs.Relisting
import RegisterMachine.Proofs.Halts
import RegisterMachine.Proofs.RegisterSafety
import RegisterMachine.Proofs.Blindness
import RegisterMachine.Proofs.MemorySafety
import RegisterMachine.Proofs.CustomOpcodes
import RegisterMachine.Proofs.StackSafety
import RegisterMachine.Proofs.BlockCopies
import RegisterMachine.Proofs.Failures
import RegisterMachine.Proofs.Integers
import RegisterMachine.Proofs.ForwardFlow
import RegisterMachine.Proofs.Relocation
import RegisterMachine.Proofs.Warnings
import RegisterMachine.Proofs.Comments
import RegisterMachine.Proofs.SelfComparison
import RegisterMachine.Proofs.RepeatedLabels
import RegisterMachine.Proofs.Recognition
import RegisterMachine.Proofs.WordOperands
import RegisterMachine.Proofs.Headwords
import RegisterMachine.Proofs.Faults
import RegisterMachine.Proofs.InlineTexts
