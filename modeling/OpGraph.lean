import OpGraph.Attr
import OpGraph.AxisOrder
import OpGraph.Bytes
import OpGraph.Cbor.Reader
import OpGraph.Cbor.Values
import OpGraph.Cbor.Writer
import OpGraph.Config
import OpGraph.Datum
import OpGraph.Element
import OpGraph.Failure
import OpGraph.FileTree
import OpGraph.Fusion.Forest
import OpGraph.Fusion.Fuse
import OpGraph.Fusion.Partition
import OpGraph.Fusion.Region
import OpGraph.Graph.Basic
import OpGraph.Graph.Canonical
import OpGraph.Graph.Collect
import OpGraph.Graph.Draft
import OpGraph.Graph.Edit
import OpGraph.Graph.Reach
import OpGraph.Graph.Resolve
import OpGraph.Graph.Topology
import OpGraph.Handle
import OpGraph.Hash64
import OpGraph.Json.Literal
import OpGraph.Json.Reader
import OpGraph.Json.Writer
import OpGraph.Model.Basic
import OpGraph.Model.File
import OpGraph.Number.Format
import OpGraph.Number.Layout
import OpGraph.Number.Shortest
import OpGraph.Number.Single
import OpGraph.Operator
import OpGraph.Pass.Basic
import OpGraph.Pass.FixPoint
import OpGraph.Pass.Neutral
import OpGraph.Pass.Reshaping
import OpGraph.Pattern.Basic
import OpGraph.Pattern.Blob
import OpGraph.Pattern.Builder
import OpGraph.Pattern.Cache
import OpGraph.Pattern.Match
import OpGraph.Pattern.Text
import OpGraph.Pipeline
import OpGraph.Provenance.Anchor
import OpGraph.Provenance.Log
import OpGraph.Rule.Basic
import OpGraph.Rule.Chain
import OpGraph.Store
import OpGraph.Stored.Boundary
import OpGraph.Stored.Model
import OpGraph.Stored.Pattern
import OpGraph.Stored.Provenance
import OpGraph.Stored.Values
import OpGraph.Tensor
import OpGraph.TensorType
import OpGraph.Text.Blank
import OpGraph.Text.Hex
import OpGraph.Text.Printable
import OpGraph.Text.Quoted
import OpGraph.Text.Tree
import OpGraph.Word
import OpGraph.Proofs.FreshName
import OpGraph.Proofs.Graph.Indexed
import OpGraph.Proofs.Graph.Edits
import OpGraph.Proofs.Graph.NodeEdits
import OpGraph.Proofs.Graph.Rewire
import OpGraph.Proofs.Graph.Mutations
import OpGraph.Proofs.Graph.Reachable
import OpGraph.Proofs.Graph.Topology
import OpGraph.Proofs.Graph.Validation
import OpGraph.Proofs.Graph.Reach
import OpGraph.Proofs.Fusion.Missing
import OpGraph.Proofs.Fusion.Region
import OpGraph.Proofs.Fusion.Loop
import OpGraph.Proofs.Fusion.Fuse
import OpGraph.Proofs.Meaning.Evaluation
import OpGraph.Proofs.Graph.Rewired
import OpGraph.Proofs.Graph.Draft
import OpGraph.Proofs.Meaning.Rewiring
import OpGraph.Proofs.Meaning.Laws
import OpGraph.Proofs.Pattern.Match
import OpGraph.Proofs.Rule.Run
import OpGraph.Proofs.Pass.Site
import OpGraph.Proofs.Pass.Neutral
import OpGraph.Proofs.Pass.FixPoint
import OpGraph.Proofs.Pass.Reshaping
import OpGraph.Proofs.Pass.Meaning
import OpGraph.Proofs.Fusion.Boundary
import OpGraph.Proofs.Fusion.Forest
import OpGraph.Proofs.Fusion.Components
import OpGraph.Proofs.Fusion.Merge
import OpGraph.Proofs.Fusion.Blocked
import OpGraph.Proofs.Fusion.Partition
import OpGraph.Proofs.Fusion.Idempotent
import OpGraph.Proofs.Graph.Collect
import OpGraph.Proofs.Graph.Interface
import OpGraph.Proofs.Pass.Returns
import OpGraph.Proofs.FileTree
import OpGraph.Proofs.Pipeline.Run
import OpGraph.Proofs.Pipeline.Interface
import OpGraph.Proofs.Pass.Validity
import OpGraph.Proofs.Pass.Genuine
import OpGraph.Proofs.Pipeline.Validity
import OpGraph.Proofs.Pattern.Valid
import OpGraph.Proofs.Pattern.Binding
import OpGraph.Proofs.Pattern.Accepts
import OpGraph.Proofs.Graph.Canonical
import OpGraph.Proofs.Fusion.Commute
import OpGraph.Proofs.Bytes
import OpGraph.Proofs.Cbor.Compound
import OpGraph.Proofs.Number.Exact
import OpGraph.Proofs.Cbor.Values
import OpGraph.Proofs.Cbor.Gives
import OpGraph.Proofs.Pattern.RoundTrip
import OpGraph.Proofs.Pattern.Traversal
import OpGraph.Proofs.Graph.Edited
import OpGraph.Proofs.Pattern.Keys
import OpGraph.Proofs.Rule.Dispatch
import OpGraph.Proofs.Graph.Order
import OpGraph.Proofs.Graph.Pruned
import OpGraph.Proofs.Graph.Faults
import OpGraph.Proofs.Rule.Firings
import OpGraph.Proofs.Rule.NormalForm
import OpGraph.Proofs.Graph.Flow
import OpGraph.Proofs.Pass.Descent
import OpGraph.Proofs.Pass.Faults
import OpGraph.Proofs.Pass.Termination
import OpGraph.Proofs.Pattern.Locality
import OpGraph.Proofs.Pass.Verdict
import OpGraph.Proofs.Pass.Idle
import OpGraph.Proofs.Payload
import OpGraph.Proofs.Model.Payload
import OpGraph.Proofs.Model.Description
import OpGraph.Proofs.Model.Rebuild
import OpGraph.Proofs.Model.RoundTrip
import OpGraph.Proofs.Model.Faults
import OpGraph.Proofs.Graph.Placed
import OpGraph.Proofs.Graph.Outputs
import OpGraph.Proofs.Provenance.Chain
import OpGraph.Proofs.Provenance.Anchored
import OpGraph.Proofs.Number.Shortest
import OpGraph.Proofs.Number.Layout
import OpGraph.Proofs.Text.Tells
import OpGraph.Proofs.Text.Shown
import OpGraph.Proofs.Model.Line
import OpGraph.Proofs.Model.Content
import OpGraph.Proofs.Graph.LeastOrder
import OpGraph.Proofs.Graph.Collected
import OpGraph.Proofs.Pass.Carried
import OpGraph.Proofs.Provenance.NormalForm
import OpGraph.Proofs.Provenance.Replay
import OpGraph.Proofs.Provenance.Ancestry
import OpGraph.Proofs.Graph.Inference
import OpGraph.Proofs.Graph.Replacement
import OpGraph.Proofs.Fusion.Atomic
import OpGraph.Proofs.Pass.Effect
import OpGraph.Proofs.Pass.Broadcast
import OpGraph.Proofs.Pattern.Symmetry
import OpGraph.Proofs.Rule.Once
import OpGraph.Proofs.Pattern.Interning
import OpGraph.Proofs.Pattern.Drawing
import OpGraph.Proofs.Model.Renaming
import OpGraph.Proofs.Pass.Transparency
import OpGraph.Proofs.AxisGroup
