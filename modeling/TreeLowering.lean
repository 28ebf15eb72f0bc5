import TreeLowering.Main
import TreeLowering.Proofs.Scope.Frame
import TreeLowering.Proofs.Scope.WellFormed
import TreeLowering.Proofs.Scope.Operation
import TreeLowering.Proofs.Scope.Allocation
import TreeLowering.Proofs.Scope.Attached
import TreeLowering.Proofs.Scope.Totality
import TreeLowering.Proofs.Scope.Collision
import TreeLowering.Proofs.Emit.Demand
import TreeLowering.Proofs.Emit.Receivers
import TreeLowering.Proofs.Scope.Numbering
import TreeLowering.Proofs.Scope.Capture
import TreeLowering.Proofs.Number.ReadBack
import TreeLowering.Proofs.Target.Token
import TreeLowering.Proofs.Target.Grammar
import TreeLowering.Proofs.Target.Evaluation
import TreeLowering.Proofs.Emit.Arithmetic
import TreeLowering.Proofs.Scope.Representation
import TreeLowering.Proofs.Scope.WriteOnce
import TreeLowering.Proofs.Emit.Congruence
import TreeLowering.Proofs.Scope.Renumbering
import TreeLowering.Proofs.Emit.RegistryGrowth
import TreeLowering.Proofs.Json.Numeral
import TreeLowering.Proofs.Json.ReadBack
import TreeLowering.Proofs.Json.Decoder
import TreeLowering.Proofs.Json.Record
import TreeLowering.Proofs.Json.Members
import TreeLowering.Proofs.Json.Tagged
import TreeLowering.Proofs.Program.Codec
import TreeLowering.Proofs.Program.Reload
import TreeLowering.Proofs.Program.Links
import TreeLowering.Proofs.Emit.Flattening
import TreeLowering.Proofs.Scope.Provenance
import TreeLowering.Proofs.Scope.Spelling
import TreeLowering.Proofs.Target.Bracket
import TreeLowering.Proofs.Emit.Bracketing
import TreeLowering.Proofs.Scope.Handles
import TreeLowering.Proofs.Command.FileTree
import TreeLowering.Proofs.Emit.ModuleText
import TreeLowering.Proofs.Command.Outputs
import TreeLowering.Proofs.Emit.Layout
import TreeLowering.Proofs.Program.Faults
import TreeLowering.Proofs.Emit.Position
import TreeLowering.Proofs.Command.Attempts
import TreeLowering.Proofs.Scope.ClosedForm
import TreeLowering.Proofs.Scope.Locality
import TreeLowering.Proofs.Scope.Completion
import TreeLowering.Proofs.Scope.Acceptance
import TreeLowering.Proofs.Program.Occurrence
import TreeLowering.Proofs.Emit.Interchange
import TreeLowering.Proofs.Emit.Introduction
import TreeLowering.Proofs.Emit.FunctionHeader
import TreeLowering.Proofs.Target.Separator
import TreeLowering.Proofs.Emit.Separators
import TreeLowering.Proofs.Emit.Edges
import TreeLowering.Proofs.Emit.InlineForm
import TreeLowering.Proofs.Emit.Balance
import TreeLowering.Proofs.Scope.Shadowing
import TreeLowering.Proofs.Scope.Hoisting
import TreeLowering.Proofs.Scope.Globals
import TreeLowering.Proofs.Emit.ObjectText
import TreeLowering.Proofs.Json.StringLiteral
import TreeLowering.Proofs.Text.Search
import TreeLowering.Proofs.Json.Explanation
import TreeLowering.Proofs.Json.ExplainedRecord
import TreeLowering.Proofs.Program.LoadFailures
import TreeLowering.Proofs.Scope.SuffixSearch
import TreeLowering.Proofs.Number.Nearest
import TreeLowering.Proofs.Number.LiteralValue
