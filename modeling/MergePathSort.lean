import MergePathSort.Tensor.Basic
import MergePathSort.Tensor.Axis
import MergePathSort.Key.Element
import MergePathSort.Json.Record
import MergePathSort.Json.Quoted
import MergePathSort.Config.Text
import MergePathSort.Plan.Program
import MergePathSort.Merge.Share
import MergePathSort.Host.Execution
import MergePathSort.Device.MergeKernel
import MergePathSort.Device.Pool
import MergePathSort.Device.Engine
import MergePathSort.Search
import MergePathSort.Backend.Host
import MergePathSort.Backend.Slice
import MergePathSort.Backend.Device
import MergePathSort.Tensor.Sort
import MergePathSort.Main
import MergePathSort.Proofs.Host.Copies
import MergePathSort.Proofs.Key.Rank
import MergePathSort.Proofs.Backend.Host
import MergePathSort.Proofs.Device.Buffers
import MergePathSort.Proofs.Device.Execution
import MergePathSort.Proofs.Host.Safety
import MergePathSort.Proofs.Tensor.Sort
import MergePathSort.Proofs.Device.ExactLaunches
import MergePathSort.Proofs.Schedule.Execution
import MergePathSort.Proofs.Schedule.InOrder
import MergePathSort.Proofs.Plan.Outline
import MergePathSort.Proofs.Host.Contents
import MergePathSort.Proofs.Search.Matching
import MergePathSort.Proofs.Tensor.Search
import MergePathSort.Proofs.Faults
import MergePathSort.Proofs.Tensor.Extents
import MergePathSort.Proofs.Plan.Safety
import MergePathSort.Proofs.Tensor.Faults
import MergePathSort.Proofs.Device.Ledger
import MergePathSort.Proofs.Device.Ownership
import MergePathSort.Proofs.Device.Limits
import MergePathSort.Proofs.Backend.Slice
import MergePathSort.Proofs.Host.SortedRows
import MergePathSort.Proofs.Config.Text
import MergePathSort.Proofs.Tensor.Refused
import MergePathSort.Proofs.Plan.Acceptance
import MergePathSort.Proofs.Device.Needles
import MergePathSort.Proofs.Tensor.Top
import MergePathSort.Proofs.Tensor.Strided
import MergePathSort.Proofs.Device.SearchLoop
import MergePathSort.Proofs.Host.Accounts
import MergePathSort.Proofs.Backend.Tracking
import MergePathSort.Proofs.Tensor.AxisMoves
import MergePathSort.Proofs.Bench.Spellings
import MergePathSort.Proofs.Merge.Diagonal
import MergePathSort.Proofs.Device.Folding
import MergePathSort.Proofs.Tensor.Rows
