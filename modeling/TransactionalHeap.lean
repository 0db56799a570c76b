import TransactionalHeap.Config.Text
import TransactionalHeap.Inspection.Engine
import TransactionalHeap.Script.Run
import TransactionalHeap.Tree.Iteration
import TransactionalHeap.Tree.Validation
import TransactionalHeap.Value.Json
import TransactionalHeap.Workload
import TransactionalHeap.Proofs.Snapshot.History
import TransactionalHeap.Proofs.Heap.CommitLog
import TransactionalHeap.Proofs.Heap.Race
import TransactionalHeap.Proofs.Object.Rebuild
import TransactionalHeap.Proofs.SortedMap.Lookup
import TransactionalHeap.Proofs.Transaction.SoundEntry
import TransactionalHeap.Proofs.Transaction.View
import TransactionalHeap.Proofs.Transaction.Opening
import TransactionalHeap.Proofs.Transaction.Loading
import TransactionalHeap.Proofs.Transaction.Simulation
import TransactionalHeap.Proofs.Transaction.Collecting
import TransactionalHeap.Proofs.Transaction.BranchOrder
import TransactionalHeap.Proofs.Transaction.WellFormed
import TransactionalHeap.Proofs.Transaction.Failing
import TransactionalHeap.Proofs.Engine.Steps
import TransactionalHeap.Proofs.Engine.Session
import TransactionalHeap.Proofs.Engine.Invariant
import TransactionalHeap.Proofs.Engine.Views
import TransactionalHeap.Proofs.Engine.SerialReplay
import TransactionalHeap.Proofs.Locks.Holders
import TransactionalHeap.Proofs.Engine.Holdings
import TransactionalHeap.Proofs.Engine.Attaching
import TransactionalHeap.Proofs.Engine.Committing
import TransactionalHeap.Proofs.Engine.CommitOrder
import TransactionalHeap.Proofs.Latch.Group
import TransactionalHeap.Proofs.Latch.Delivery
import TransactionalHeap.Proofs.Listeners.Filing
import TransactionalHeap.Proofs.Listeners.Serving
import TransactionalHeap.Proofs.Listeners.Registering
import TransactionalHeap.Proofs.Listeners.Traffic
import TransactionalHeap.Proofs.Listeners.Keeping
import TransactionalHeap.Proofs.Engine.Waiting
import TransactionalHeap.Proofs.Engine.Retrying
import TransactionalHeap.Proofs.Engine.Leftovers
import TransactionalHeap.Proofs.Engine.Entries
import TransactionalHeap.Proofs.Engine.Presence
import TransactionalHeap.Proofs.Engine.Terminal
import TransactionalHeap.Proofs.Program.Turns
import TransactionalHeap.Proofs.Program.Acting
import TransactionalHeap.Proofs.Program.Calling
import TransactionalHeap.Proofs.Program.TakingEffect
import TransactionalHeap.Proofs.Engine.Books
import TransactionalHeap.Proofs.Engine.Settling
import TransactionalHeap.Proofs.Program.Bookkeeping
import TransactionalHeap.Proofs.Program.Registry
import TransactionalHeap.Proofs.Program.Finishing
import TransactionalHeap.Proofs.Program.Requests
import TransactionalHeap.Proofs.Locks.Exclusion
import TransactionalHeap.Proofs.Tree.Balance
import TransactionalHeap.Proofs.Engine.Rollback
import TransactionalHeap.Proofs.Tree.Insertions
import TransactionalHeap.Proofs.Transaction.Branching
import TransactionalHeap.Proofs.Engine.GoingOn
import TransactionalHeap.Proofs.Program.Alternatives
import TransactionalHeap.Proofs.Locks.Overlap
import TransactionalHeap.Proofs.Engine.Copies
import TransactionalHeap.Proofs.Engine.GraphLoads
import TransactionalHeap.Proofs.Program.Harmless
import TransactionalHeap.Proofs.Program.Limit
import TransactionalHeap.Proofs.Heap.Disjoint
import TransactionalHeap.Proofs.Tree.Checking
import TransactionalHeap.Proofs.Tree.Height
import TransactionalHeap.Proofs.Tree.Traversal
import TransactionalHeap.Proofs.Fields.RoundTrip
import TransactionalHeap.Proofs.Tree.Rebalancing
import TransactionalHeap.Proofs.Fields.Cursor
import TransactionalHeap.Proofs.Engine.Versions
import TransactionalHeap.Proofs.Config.RoundTrip
