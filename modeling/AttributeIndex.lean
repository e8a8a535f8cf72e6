import AttributeIndex.Config.Document
import AttributeIndex.Index.Opening
import AttributeIndex.OrderedSet.Iterator
import AttributeIndex.Proofs.Index.Failures
import AttributeIndex.Proofs.Index.Refinement
import AttributeIndex.Proofs.SetTable.Dropping
import AttributeIndex.Proofs.SetTable.Representation
import AttributeIndex.Proofs.SetTable.Separation
import AttributeIndex.Proofs.SetTable.Undoing
import AttributeIndex.Sample
import AttributeIndex.Workload
import AttributeIndex.Proofs.OrderedSet.Balance
import AttributeIndex.Proofs.OrderedSet.Guarded
import AttributeIndex.Proofs.Log.Frame
import AttributeIndex.Proofs.Log.Replay
import AttributeIndex.Proofs.Log.Opening
import AttributeIndex.Proofs.Log.Writing
import AttributeIndex.Proofs.Log.Recovery
import AttributeIndex.Proofs.Log.Compaction
import AttributeIndex.Proofs.Text.FileName
import AttributeIndex.Proofs.Table.Requests
import AttributeIndex.Proofs.Log.Refinement
import AttributeIndex.Proofs.OrderedSet.Elements
import AttributeIndex.Proofs.OrderedSet.Position
import AttributeIndex.Proofs.Table.ReadCache
import AttributeIndex.Proofs.Log.Reading
import AttributeIndex.Proofs.FileTree
import AttributeIndex.Proofs.Log.Canonical
import AttributeIndex.Proofs.Log.Faithful
import AttributeIndex.Proofs.Log.Likeness
import AttributeIndex.Proofs.Log.Course
import AttributeIndex.Proofs.Log.Interruption
import AttributeIndex.Proofs.Log.Alteration
import AttributeIndex.Proofs.Log.Accounting
import AttributeIndex.Proofs.Table.Iteration
import AttributeIndex.Proofs.Codec.Exact
import AttributeIndex.Proofs.SetTable.Flushing
import AttributeIndex.Proofs.OrderedSet.Bounds
import AttributeIndex.Proofs.OrderedSet.Stepping
import AttributeIndex.Proofs.OrderedSet.Building
import AttributeIndex.Proofs.Index.Closing
import AttributeIndex.Proofs.OrderedSet.Depth
import AttributeIndex.Proofs.SetTable.Counting
import AttributeIndex.Proofs.SetTable.Freshness
import AttributeIndex.Proofs.Table.Draining
import AttributeIndex.Proofs.OrderedSet.Rotation
import AttributeIndex.Proofs.Source
import AttributeIndex.Proofs.Config.Validation
