import BlockGraph.Command.Disk
import BlockGraph.Decimal.Layout
import BlockGraph.Decimal.Numeral
import BlockGraph.KeyMap
import BlockGraph.Main
import BlockGraph.Text.Blank
import BlockGraph.Text.Inspect
import BlockGraph.Type.Inspect
import BlockGraph.Proofs.Evaluation.Framing
import BlockGraph.Proofs.Evaluation.Scope
import BlockGraph.Proofs.Evaluation.Termination
import BlockGraph.Proofs.Evaluation.Plain
import BlockGraph.Proofs.Evaluation.Isolation
import BlockGraph.Proofs.Type.Lattice
import BlockGraph.Proofs.Type.Preorder
import BlockGraph.Proofs.Type.RoundTrip
import BlockGraph.Proofs.Evaluation.Request
import BlockGraph.Proofs.Evaluation.Trace
import BlockGraph.Proofs.Block.Catalog
import BlockGraph.Proofs.Evaluation.Cycle
import BlockGraph.Proofs.Evaluation.Wording
import BlockGraph.Proofs.Evaluation.Locality
import BlockGraph.Proofs.Block.Shapes
import BlockGraph.Proofs.Evaluation.Nested
import BlockGraph.Proofs.Evaluation.Reading
import BlockGraph.Proofs.Standard.Blocks
import BlockGraph.Proofs.Standard.Expression
import BlockGraph.Proofs.Standard.Actor
import BlockGraph.Proofs.Standard.Operand
import BlockGraph.Proofs.Standard.Absence
import BlockGraph.Proofs.Evaluation.Rules
import BlockGraph.Proofs.Evaluation.Inference
import BlockGraph.Proofs.Json.Written
import BlockGraph.Proofs.Graph.Document
import BlockGraph.Proofs.Type.Shared
import BlockGraph.Proofs.Type.Registration
import BlockGraph.Proofs.Type.Index
import BlockGraph.Proofs.Graph.History
import BlockGraph.Proofs.Evaluation.Moves
import BlockGraph.Proofs.Evaluation.Ledger
import BlockGraph.Proofs.Type.Inheritance
import BlockGraph.Proofs.Type.Instantiation
import BlockGraph.Proofs.Type.Antisymmetry
import BlockGraph.Proofs.Evaluation.Memory
import BlockGraph.Proofs.Type.Rendering
import BlockGraph.Proofs.Type.Arity
import BlockGraph.Proofs.Type.Rereading
import BlockGraph.Proofs.Type.Storage
import BlockGraph.Proofs.Block.Index
import BlockGraph.Proofs.Block.Builder
import BlockGraph.Proofs.Type.Provenance
import BlockGraph.Proofs.Type.Flow
import BlockGraph.Proofs.Evaluation.Mirror
import BlockGraph.Proofs.Evaluation.Defaults
import BlockGraph.Proofs.Evaluation.Attribution
import BlockGraph.Proofs.Evaluation.Restoration
import BlockGraph.Proofs.Standard.Collection
import BlockGraph.Proofs.Text.Quoted
import BlockGraph.Proofs.Decimal.Shortest
import BlockGraph.Proofs.Decimal.Whole
import BlockGraph.Proofs.Standard.Integer
