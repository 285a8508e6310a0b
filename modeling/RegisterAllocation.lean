import RegisterAllocation.Allocation
import RegisterAllocation.Allocation.Pool
import RegisterAllocation.Analysis.Flow
import RegisterAllocation.Analysis.LinkView
import RegisterAllocation.Analysis.Liveness
import RegisterAllocation.Analysis.Sheet
import RegisterAllocation.Analysis.UseDef
import RegisterAllocation.Collector
import RegisterAllocation.Coloring
import RegisterAllocation.Command.Artifact
import RegisterAllocation.Command.Directory
import RegisterAllocation.Command.Environment
import RegisterAllocation.Command.Help
import RegisterAllocation.Command.Options
import RegisterAllocation.Command.Session
import RegisterAllocation.ConfigFile
import RegisterAllocation.Fault
import RegisterAllocation.Function
import RegisterAllocation.Instruction
import RegisterAllocation.Interchange.Decode
import RegisterAllocation.Interchange.Draft
import RegisterAllocation.Interchange.Encode
import RegisterAllocation.Interference
import RegisterAllocation.Json
import RegisterAllocation.Json.Reader
import RegisterAllocation.Json.Token
import RegisterAllocation.Json.Writer
import RegisterAllocation.Main
import RegisterAllocation.NameSequence
import RegisterAllocation.Operand
import RegisterAllocation.Operator
import RegisterAllocation.Proofs.AllocatedFunctions
import RegisterAllocation.Proofs.Colorings
import RegisterAllocation.Proofs.CommandLines
import RegisterAllocation.Proofs.ConsistentSettings
import RegisterAllocation.Proofs.ControlFlow
import RegisterAllocation.Proofs.Cores
import RegisterAllocation.Proofs.DecodedPrograms
import RegisterAllocation.Proofs.Derivations
import RegisterAllocation.Proofs.Drafts
import RegisterAllocation.Proofs.EdgeSets
import RegisterAllocation.Proofs.Effects
import RegisterAllocation.Proofs.ExactFlow
import RegisterAllocation.Proofs.ExactInterference
import RegisterAllocation.Proofs.ExactLiveness
import RegisterAllocation.Proofs.ExpandedFlow
import RegisterAllocation.Proofs.ExpandedLiveness
import RegisterAllocation.Proofs.ExpandedRuns
import RegisterAllocation.Proofs.Expansion
import RegisterAllocation.Proofs.ExtendedInputs
import RegisterAllocation.Proofs.Fixpoints
import RegisterAllocation.Proofs.FreshNames
import RegisterAllocation.Proofs.GraphHistories
import RegisterAllocation.Proofs.Graphs
import RegisterAllocation.Proofs.Groups
import RegisterAllocation.Proofs.InterferenceGraph
import RegisterAllocation.Proofs.Interleavings
import RegisterAllocation.Proofs.JsonTexts
import RegisterAllocation.Proofs.LivenessSolution
import RegisterAllocation.Proofs.Machine
import RegisterAllocation.Proofs.Moves
import RegisterAllocation.Proofs.Preservation
import RegisterAllocation.Proofs.Pressure
import RegisterAllocation.Proofs.Progress
import RegisterAllocation.Proofs.ReadsAndWrites
import RegisterAllocation.Proofs.Recolorings
import RegisterAllocation.Proofs.RegisterAssignment
import RegisterAllocation.Proofs.RegisterFiles
import RegisterAllocation.Proofs.RenamedSets
import RegisterAllocation.Proofs.Rereading
import RegisterAllocation.Proofs.RoundTrip
import RegisterAllocation.Proofs.Rounds
import RegisterAllocation.Proofs.Shape
import RegisterAllocation.Proofs.SharedGraphs
import RegisterAllocation.Proofs.ShiftCounts
import RegisterAllocation.Proofs.Simplification
import RegisterAllocation.Proofs.SpillSlots
import RegisterAllocation.Proofs.SpilledGraphs
import RegisterAllocation.Proofs.SpilledRuns
import RegisterAllocation.Proofs.Tables
import RegisterAllocation.Proofs.Temporaries
import RegisterAllocation.Proofs.TwinAllocations
import RegisterAllocation.Proofs.TwinFunctions
import RegisterAllocation.Proofs.TwinSpills
import RegisterAllocation.Proofs.Underway
import RegisterAllocation.Proofs.UniqueTexts
import RegisterAllocation.Proofs.ValidFunctions
import RegisterAllocation.RegisterFile
import RegisterAllocation.RuntimeFunction
import RegisterAllocation.Spill
import RegisterAllocation.Stack
import RegisterAllocation.Text.Printable
import RegisterAllocation.Text.Quoted
import RegisterAllocation.Toml
import RegisterAllocation.Toml.Keys
import RegisterAllocation.Toml.Moment
import RegisterAllocation.Toml.Reader
import RegisterAllocation.Toml.Text
import RegisterAllocation.Validation
import RegisterAllocation.Variable
import RegisterAllocation.Word
