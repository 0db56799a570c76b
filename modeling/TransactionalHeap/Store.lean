import TransactionalHeap.Config
import TransactionalHeap.Heap
import TransactionalHeap.Listeners
import TransactionalHeap.Liveness
import TransactionalHeap.Statistics

/-!
# What transactions share

The store is the heap with everything around it that belongs to no single transaction: commit locks,
listeners, live versions, statistics, and the history of events.

A commit that writes has two halves. `publish` takes the commit locks, checks for conflicts and
makes the new version visible; `conclude` gives the locks back and wakes who waited. Others may run
in between, and they meet the new version, held locks and listeners that sleep still.
-/

namespace TransactionalHeap

variable [Transactables]

structure Store where
  heap : Heap
  config : Config
  locks : LockTable := {}
  listeners : Listeners := {}
  liveness : Liveness := {}
  statistics : Statistics := {}
  /-- Everything an observer was told, oldest first. -/
  events : List Event := []
  nextTransaction : TxnId := 1
  nextLatch : LatchId := 0

/-- A commit between its halves. -/
structure Publication where
  guard : LockGuard
  version : Version
  handles : List Handle
  deriving DecidableEq, Repr

namespace Store

def ofConfig (config : Config) : Store where
  heap := Heap.ofVersion config.initialVersion config.commitBackoff
  config

/-! ## Steps on a part of the store -/

def onHeap {α : Type} (step : Step Heap α) : Step Store α := fun s =>
  match step s.heap with
  | .ok a heap => .ok a { s with heap }
  | .error e heap => .error e { s with heap }

def onLocks {α : Type} (step : Step LockTable α) : Step Store α := fun s =>
  match step s.locks with
  | .ok a locks => .ok a { s with locks }
  | .error e locks => .error e { s with locks }

def onListeners {α : Type} (step : Step Listeners α) : Step Store α := fun s =>
  match step s.listeners with
  | .ok a listeners => .ok a { s with listeners }
  | .error e listeners => .error e { s with listeners }

/-! ## Bookkeeping -/

def tell (event : Event) (s : Store) : Store := { s with events := s.events ++ [event] }

def count (change : Statistics → Statistics) (s : Store) : Store :=
  { s with statistics := change s.statistics }

/-- A transaction starts, or starts over, from the given version. -/
def started (id : TxnId) (version : Version) (s : Store) : Store :=
  ({ s with liveness := s.liveness.register version }
    |>.count fun n => { n with started := n.started + 1 }).tell (.began id version)

/-- A transaction no longer reads from the version it was live for, if it still was. -/
def released (live : Option Version) (s : Store) : Store :=
  match live with
  | none => s
  | some version => { s with liveness := s.liveness.release version }

def committedUpdate (id : TxnId) (version : Version) (writes : Nat) (s : Store) : Store :=
  (s.count fun n => { n with committed := n.committed + 1 }).tell (.committed id version writes)

def committedNothing (id : TxnId) (s : Store) : Store :=
  (s.count fun n =>
    { n with committed := n.committed + 1, readOnlyCommits := n.readOnlyCommits + 1 }).tell
    (.committed id s.heap.version 0)

def aborted (id : TxnId) (reason : AbortReason) (s : Store) : Store :=
  (s.count fun n => { n with aborted := n.aborted + 1 }).tell (.aborted id reason)

def retried (id : TxnId) (reads : Nat) (s : Store) : Store :=
  (s.count fun n => { n with retries := n.retries + 1 }).tell (.retried id reads)

def lockFailed (id : TxnId) (e : Error) (s : Store) : Store :=
  (s.count fun n => { n with lockFailures := n.lockFailures + 1 }).tell (.conflicted id e)

def conflicted (id : TxnId) (e : Error) (s : Store) : Store :=
  (s.count fun n => { n with writeConflicts := n.writeConflicts + 1 }).tell (.conflicted id e)

/-! ## Committing -/

/-- Take the commit locks of everything that is to be written. -/
def lockWrites (id : TxnId) (handles : List Handle) : Step Store LockGuard := do
  try onLocks (LockTable.acquire id handles (← get).config.lockPolicy)
  catch e =>
    modify (lockFailed id e)
    throw e

def unlock (guard : LockGuard) (s : Store) : Store := { s with locks := s.locks.drop guard }

/-- The first half of a commit: make the writes visible as the next version. The locks stay held,
unless it fails. -/
def publish (id : TxnId) (start : Snapshot) (writes : List PendingRecord) :
    Step Store Publication := do
  let handles := writes.map PendingRecord.handle
  let guard ← lockWrites id handles
  try
    let version ← onHeap (Heap.commit start writes)
    return { guard, version, handles }
  catch e =>
    modify (unlock guard)
    modify (conflicted id e)
    throw e

/-- The second half of a commit: let go of the locks, wake who waited, and count. -/
def conclude (id : TxnId) (p : Publication) (s : Store) : Store :=
  let s := s.unlock p.guard
  let s := { s with listeners := s.listeners.notify p.handles p.version }
  s.committedUpdate id p.version p.handles.length

/-! ## Waiting -/

/-- File a new latch with everything that a transaction read. Gives the latch and where it is
filed. -/
def listen (reads : List Handle) (start : Version) : Step Store (LatchId × List Handle) := do
  let s ← get
  let latch := s.nextLatch
  set { s with nextLatch := latch + 1 }
  return (latch, ← onListeners (Listeners.register s.heap.head reads start latch))

def unlisten (latch : LatchId) (filed : List Handle) (start : Version) (s : Store) : Store :=
  { s with listeners := s.listeners.deregister filed start latch }

/-- Something that was read at `start` has a newer version now. -/
def isOvertaken (s : Store) (reads : List Handle) (start : Version) : Bool :=
  reads.any fun h => (s.heap.head.versionOf h).any (start < ·)

/-! ## Reading the past -/

/-- A copy of an object as it was at a version, if it was there. -/
def readAt (s : Store) (type : ObjectType) (h : Handle) (version : Version) :
    Except Error (Option Object) := do
  if s.heap.version < version then
    throw (.invalidOperation (.readAhead version))
  match ← s.heap.readAt h version with
  | none => return none
  | some r => return some (← r.rebuildAs type)

end Store

end TransactionalHeap
