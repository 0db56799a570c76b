import TransactionalHeap.Store
import TransactionalHeap.Transaction

/-!
# The engine

The engine is the store with the transactions that are in use. A transaction is held from its
begin until it is let go of, whatever becomes of it meanwhile. Its own operations (`on`) touch
nothing else; beginning, committing, aborting and waiting also change the store.

A retry has three parts. `park` files a latch and announces the retry, `suspend` forgets what was
read and stops being live, `wake` starts over on the newest snapshot. Others may run between them.
-/

namespace TransactionalHeap

variable [Transactables]

structure Engine where
  store : Store
  held : SortedMap TxnId Transaction := ∅
  nextHandle : Nat := 1

/-- How far the first half of a commit got: the transaction is settled already, or its writes are
published and the second half is due. -/
inductive CommitStage where
  | settled (version : Version)
  | published (p : Publication)
  deriving DecidableEq, Repr

/-- A filed latch, to be withdrawn after the wait. -/
structure Parked where
  latch : LatchId
  filed : List Handle
  start : Version
  deriving DecidableEq, Repr

namespace Engine

def ofConfig (config : Config) : Engine := { store := .ofConfig config }

/-! ## Reaching the parts -/

def onStore {α : Type} (step : Step Store α) : Step Engine α := fun e =>
  match step e.store with
  | .ok a store => .ok a { e with store }
  | .error err store => .error err { e with store }

def changeStore (change : Store → Store) : Step Engine Unit :=
  modify fun e => { e with store := change e.store }

def transaction (id : TxnId) : Step Engine Transaction := fun e =>
  match e.held.find? id with
  | some t => .ok t e
  | none => .error (.internal (.unknownTransaction id)) e

/-- An operation of one transaction on itself. -/
def on {α : Type} (id : TxnId) (step : Step Transaction α) : Step Engine α := fun e =>
  match e.held.find? id with
  | none => .error (.internal (.unknownTransaction id)) e
  | some t =>
    match step t with
    | .ok a t => .ok a { e with held := e.held.insert id t }
    | .error err t => .error err { e with held := e.held.insert id t }

/-! ## Beginning and letting go -/

/-- A new transaction on the given snapshot. -/
def start (snapshot : Snapshot) : Step Engine TxnId := fun e =>
  let id := e.store.nextTransaction
  let t : Transaction := { id, snapshot, liveVersion := some snapshot.version }
  let store := { e.store with nextTransaction := id + 1 }
  .ok id { e with store := store.started id snapshot.version, held := e.held.insert id t }

/-- A new transaction on the newest snapshot. -/
def begin : Step Engine TxnId := do
  start (← get).store.heap.head

/-- A new transaction on the snapshot that was the newest at `version`. -/
def beginAt (version : Version) : Step Engine TxnId := do
  let heap := (← get).store.heap
  if heap.version < version then
    throw (.invalidOperation (.beginAhead version heap.version))
  start (← Step.ofExcept (heap.snapshotAt version))

/-- Let go of a transaction. An active one is forgotten without being aborted. -/
def drop (id : TxnId) : Step Engine Unit := fun e =>
  match e.held.find? id with
  | none => .ok () e
  | some t =>
    .ok () { e with store := e.store.released t.liveVersion, held := e.held.erase id }

/-! ## Attaching -/

/-- Attach under a new handle, which is used up also where attaching fails. -/
def attach (id : TxnId) (o : Object) : Step Engine Handle := do
  let e ← get
  let h : Handle := ⟨e.nextHandle⟩
  set { e with nextHandle := e.nextHandle + 1 }
  on id (Transaction.attachTo h o)
  return h

/-! ## Ending -/

/-- End a transaction, which stops being live. -/
def finish (id : TxnId) (status : TransactionStatus) : Step Engine Unit := do
  let t ← transaction id
  changeStore (·.released t.liveVersion)
  on id (modify (Transaction.finish status))

def endAborted (id : TxnId) (reason : AbortReason) : Step Engine Unit := do
  changeStore (·.aborted id reason)
  finish id (.aborted reason)

/-- Abort a transaction; aborting it again changes nothing. -/
def abort (id : TxnId) : Step Engine Unit := do
  match (← transaction id).status with
  | .aborted _ => return
  | .committed v => throw (.deadTransaction id (TransactionStatus.committed v).name)
  | .active => endAborted id .byCaller

/-- A failed commit aborts its transaction. -/
def fail {α : Type} (id : TxnId) (e : Error) : Step Engine α := do
  endAborted id (.failed e)
  throw e

/-- A write that lost against another commit shows it. -/
def markConflict (e : Error) (t : Transaction) : Transaction :=
  match e with
  | .writeConflict h _ _ => t.markAll .conflict [h]
  | _ => t

/-- The first half of a commit that collects its writes by the given step. Every failure of an active
transaction aborts it, open branches apart. -/
def beginCommitBy (collect : Step Transaction (List PendingRecord)) (id : TxnId) :
    Step Engine CommitStage := do
  let t ← transaction id
  match t.status with
  | .committed version => return .settled version
  | .aborted reason => throw (.deadTransaction id (TransactionStatus.aborted reason).name)
  | .active =>
    if t.depth ≠ 0 then throw (.invalidOperation (.openBranches t.depth))
    let writes ← try on id collect catch e => fail id e
    if writes.isEmpty then
      let version := (← get).store.heap.version
      changeStore (·.committedNothing id)
      finish id (.committed version)
      return .settled version
    try return .published (← onStore (Store.publish id t.snapshot writes))
    catch e =>
      on id (modify (markConflict e))
      fail id e

/-- The first half of a commit. It collects in handle order, which is as good as any other
(`Session.commit_in_any_order`). -/
def beginCommit (id : TxnId) : Step Engine CommitStage := beginCommitBy Transaction.collectWrites id

/-- The second half of a commit. -/
def endCommit (id : TxnId) (p : Publication) : Step Engine Version := do
  changeStore (·.conclude id p)
  on id (modify (Transaction.markAll .committed p.handles))
  finish id (.committed p.version)
  return p.version

/-- Both halves of a commit, with nobody in between. -/
def commitBy (collect : Step Transaction (List PendingRecord)) (id : TxnId) : Step Engine Version := do
  match ← beginCommitBy collect id with
  | .settled version => return version
  | .published p => endCommit id p

def commit (id : TxnId) : Step Engine Version := commitBy Transaction.collectWrites id

/-! ## Waiting -/

/-- File a latch with everything the transaction read. -/
def park (id : TxnId) : Step Engine Parked := do
  on id Transaction.ensureActive
  let t ← transaction id
  let reads := t.readSet
  if reads.isEmpty then throw (.noProgress (.nothingRead id))
  let (latch, filed) ← onStore (Store.listen reads t.startVersion)
  changeStore (·.retried id reads.length)
  return { latch, filed, start := t.startVersion }

/-- Give up what was read and written, and the version it was read at. -/
def suspend (id : TxnId) : Step Engine Unit := do
  let t ← transaction id
  changeStore (·.released t.liveVersion)
  on id (modify fun t => { t with entries := ∅, frames := [], liveVersion := none })

/-- Start over on the newest snapshot, after the latch was opened. -/
def wake (id : TxnId) (p : Parked) : Step Engine Unit := do
  changeStore (·.unlisten p.latch p.filed p.start)
  let snapshot := (← get).store.heap.head
  changeStore (·.started id snapshot.version)
  on id (modify fun t => { t with snapshot, liveVersion := some snapshot.version })

/-- The transaction waits for a commit that only somebody else could bring about. -/
def isBlocked (e : Engine) (id : TxnId) : Bool :=
  match e.held.find? id with
  | none => false
  | some t =>
    t.isActive && !t.readSet.isEmpty && !e.store.isOvertaken t.readSet t.startVersion

end Engine

end TransactionalHeap
