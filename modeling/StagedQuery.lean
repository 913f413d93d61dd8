import StagedQuery.Cluster.Run
import StagedQuery.Codec.Catalogue
import StagedQuery.Executor.Unread
import StagedQuery.Main
import StagedQuery.Text.Hex
import StagedQuery.Wire.Block.RoundTrip
import StagedQuery.Proofs.Codec.Data
import StagedQuery.Proofs.Stream.Column
import StagedQuery.Proofs.Stream.Payload
import StagedQuery.Proofs.Stream.PlainForm
import StagedQuery.Proofs.Stream.Cursor
import StagedQuery.Proofs.Wire.Frame
import StagedQuery.Proofs.Wire.Refusal
import StagedQuery.Proofs.Wire.Cut
import StagedQuery.Proofs.Wire.Truncation
import StagedQuery.Proofs.Wire.Limits
import StagedQuery.Proofs.RowGroup
import StagedQuery.Proofs.Stream.Reader
import StagedQuery.Proofs.Stream.Writer
import StagedQuery.Proofs.Stream.RoundTrip
import StagedQuery.Proofs.Stream.Attempts
import StagedQuery.Proofs.Stream.Cut
import StagedQuery.Proofs.Stream.Loss
import StagedQuery.Proofs.Stream.Unended
import StagedQuery.Proofs.Stream.Portable
import StagedQuery.Proofs.Dealing
import StagedQuery.Proofs.Operator.Order
import StagedQuery.Proofs.Operator.Contract
import StagedQuery.Proofs.Operator.Movement
import StagedQuery.Proofs.Operator.Dropping
import StagedQuery.Proofs.Plan.Lowering
import StagedQuery.Proofs.Plan.Acceptance
import StagedQuery.Proofs.Plan.Keys
import StagedQuery.Proofs.Plan.Placement
import StagedQuery.Proofs.Plan.Scans
import StagedQuery.Proofs.Job.StageJob
import StagedQuery.Proofs.Plan.Wiring
import StagedQuery.Proofs.Plan.Running
import StagedQuery.Proofs.Plan.Meaning
import StagedQuery.Proofs.Cluster.Execution
import StagedQuery.Proofs.Cluster.Failure
import StagedQuery.Proofs.Cluster.Movement
import StagedQuery.Proofs.Cluster.Joins
import StagedQuery.Proofs.Cluster.Phases
import StagedQuery.Proofs.Cluster.Handout
import StagedQuery.Proofs.Cluster.Asking
import StagedQuery.Proofs.Cluster.Setup
import StagedQuery.Proofs.Cluster.Success
import StagedQuery.Proofs.Stream.Safety
import StagedQuery.Proofs.Stream.Expected
import StagedQuery.Proofs.Stream.Thresholds
import StagedQuery.Proofs.Cluster.Reporting
import StagedQuery.Proofs.Cluster.Arrival
import StagedQuery.Proofs.Wire.Messages
import StagedQuery.Proofs.Plan.Dispatch
import StagedQuery.Proofs.Executor.Orderly
import StagedQuery.Proofs.Wire.Marker
import StagedQuery.Proofs.Stream.Batches
import StagedQuery.Proofs.Stream.Accounting
import StagedQuery.Proofs.Operator.Conservation
import StagedQuery.Proofs.Plan.Filter
import StagedQuery.Proofs.Executor.Latch
import StagedQuery.Proofs.Cluster.Query
import StagedQuery.Proofs.Cluster.Hosting
import StagedQuery.Proofs.Operator.Comparison
import StagedQuery.Proofs.RowGroup.Shape
import StagedQuery.Proofs.RowGroup.Transpose
import StagedQuery.Proofs.Cluster.Registry
