import TransactionalHeap.Transaction.Entry
import TransactionalHeap.Snapshot
import TransactionalHeap.Statistics

/-!
# Transactions

A transaction reads one snapshot and buffers all it changes in entries of its own, so what it does
here touches nothing but itself. An entry is made when its object is first asked for, and stays
also if the object then cannot be rebuilt or has another type.

A branch saves all entries. Ending it keeps what was done since; rolling it back brings the saved
entries back and keeps the read dependencies that were added.
-/

namespace TransactionalHeap

variable [Transactables]

inductive TransactionStatus where
  | active
  | committed (version : Version)
  | aborted (reason : AbortReason)
  deriving DecidableEq, Repr

def TransactionStatus.name : TransactionStatus → String
  | .active => "active"
  | .committed _ => "committed"
  | .aborted _ => "aborted"

structure Transaction where
  id : TxnId
  snapshot : Snapshot
  entries : Entries := ∅
  /-- The open branches, innermost first. -/
  frames : List Frame := []
  /-- How each entry stood when the transaction ended. -/
  outcome : SortedMap Handle EntryStatus := ∅
  status : TransactionStatus := .active
  /-- The version it is registered as live for. -/
  liveVersion : Option Version := none

/-- How a load treats what it finds: follow all references at once, put off rebuilding, or give a
copy that is not tracked. -/
inductive ReadPolicy where
  | eager | lazy | unmanaged
  deriving DecidableEq, Repr

instance : Inhabited ReadPolicy := ⟨.eager⟩

/-- What a load gives: a reference to a tracked object, or a detached copy. -/
inductive Loaded where
  | tracked (type : ObjectType) (handle : Handle)
  | deferred (type : ObjectType) (handle : Handle)
  | detached (o : Object)

namespace Transaction

/-! ## Looking at a transaction -/

def isActive (t : Transaction) : Bool := t.status = .active

def startVersion (t : Transaction) : Version := t.snapshot.version

def commitVersion (t : Transaction) : Option Version :=
  match t.status with
  | .committed v => some v
  | .active | .aborted _ => none

/-- The objects a retry waits for, ascending. -/
def readSet (t : Transaction) : List Handle :=
  (t.entries.filter fun _ e => e.isReadDependency).keys

def writeCount (t : Transaction) : Nat :=
  (t.entries.filter fun _ e => e.status.isWriteCandidate).size

def statusOf (t : Transaction) (h : Handle) : Option EntryStatus :=
  ((t.entries.find? h).map Entry.status).or (t.outcome.find? h)

def isMaterialized (t : Transaction) (h : Handle) : Bool :=
  (t.entries.find? h).any Entry.isMaterialized

def depth (t : Transaction) : Nat := t.frames.length

def ensureActive : Step Transaction Unit := fun t =>
  match t.status with
  | .active => .ok () t
  | ended => .error (.deadTransaction t.id ended.name) t

def setEntry (h : Handle) (e : Entry) : Step Transaction Unit :=
  modify fun t => { t with entries := t.entries.insert h e }

/-! ## Attaching -/

/-- Put a new object under a handle that the snapshot does not hold. A fresh one that is already
there is replaced. -/
def attachTo (h : Handle) (o : Object) : Step Transaction Unit := do
  ensureActive
  let t ← get
  match t.entries.find? h with
  | some e => setEntry h (← Step.ofExcept (e.replaceFresh o))
  | none =>
    if t.snapshot.contains h then throw (.invalidOperation (.alreadyCommitted h))
    setEntry h (.fresh h o)

/-! ## Reading and writing -/

/-- The entry of an object, made from the snapshot if need be. -/
def entry (h : Handle) : Step Transaction Entry := do
  let t ← get
  match t.entries.find? h with
  | some e => pure e
  | none =>
    match t.snapshot.read h with
    | none => throw (.loadUncommitted h)
    | some r =>
      setEntry h (.deferred r)
      pure (.deferred r)

/-- The entry of an object, its object rebuilt. -/
def openEntry (h : Handle) : Step Transaction Entry := do
  let e ← Step.ofExcept (← entry h).materialize
  setEntry h e
  pure e

def read (type : ObjectType) (h : Handle) : Step Transaction Object := do
  ensureActive
  Step.ofExcept ((← openEntry h).get type)

/-- The object, opened for a change. -/
def write (type : ObjectType) (h : Handle) : Step Transaction Object := do
  ensureActive
  let (o, e) ← Step.ofExcept ((← openEntry h).getForWrite type)
  setEntry h e
  pure o

/-- Open an object for a change and put what the change makes of it in its place. A change that
fails leaves the object as it was, though opened. The type stays. -/
def update (type : ObjectType) (h : Handle) (change : Object → Except Error Object) :
    Step Transaction Object := do
  let o ← write type h
  let o ← Step.ofExcept (do (← change o).castTo type)
  modify fun t => { t with entries := t.entries.modify h fun e => { e with object := some o } }
  pure o

/-! ## Loading -/

/-- Open every object on the stack and all that it leads to, last child first. `unvisited` are the
objects that are there and were not opened by this load yet. -/
def loadReachable (unvisited : List Handle) : List Handle → Step Transaction Unit
  | [] => pure ()
  | h :: pending => do
    if h ∈ unvisited then
      let o ← Step.ofExcept (← openEntry h).live
      loadReachable (unvisited.erase h) (o.children.reverse ++ pending)
    else if (← get).entries.contains h then loadReachable unvisited pending
    else throw (.loadUncommitted h)
termination_by pending => (unvisited.length, pending.length)
decreasing_by
  · rename_i hmem
    rw [List.length_erase_of_mem hmem]
    have := List.length_pos_of_mem hmem
    exact Prod.Lex.left _ _ (by omega)
  · exact Prod.Lex.right _ (by simp)

/-- Every object that the transaction can open. -/
def available (t : Transaction) : List Handle :=
  Handle.sortDistinct (t.entries.keys ++ t.snapshot.tree.root.cells.map Cell.handle)

/-- Load an object as one of the given type. An untracked copy of a tracked object is read from
its current fields, whatever its type. -/
def load (type : ObjectType) (h : Handle) (policy : ReadPolicy) : Step Transaction Loaded := do
  ensureActive
  match policy with
  | .eager =>
    loadReachable (← get).available [h]
    match (← get).entries.find? h with
    | none => throw (.internal (.vanished h))
    | some e =>
      discard (Step.ofExcept (e.get type))
      pure (.tracked type h)
  | .lazy =>
    match (← entry h).origin with
    | some r =>
      if r.type = type then pure (.deferred type h)
      else throw (.wrongType type.name r.type.name)
    | none => pure (.deferred type h)
  | .unmanaged =>
    let t ← get
    match t.entries.find? h with
    | some e =>
      let fields ← Step.ofExcept e.dematerialize
      return .detached (← Step.ofExcept (type.read fields))
    | none =>
      match t.snapshot.read h with
      | none => throw (.loadUncommitted h)
      | some r => return .detached (← Step.ofExcept (r.rebuildAs type))

end Transaction

/-- The object that a load stands for. -/
def Loaded.get : Loaded → Step Transaction Object
  | .tracked type h | .deferred type h => Transaction.read type h
  | .detached o => pure o

def Loaded.isTracked : Loaded → Bool
  | .tracked .. | .deferred .. => true
  | .detached _ => false

/-- The copy of an untracked load. -/
def Loaded.detached? : Loaded → Option Object
  | .tracked .. | .deferred .. => none
  | .detached o => some o

namespace Transaction

/-! ## Branches -/

/-- Open a branch. -/
def startOr : Step Transaction Unit := do
  ensureActive
  let frame ← Step.ofExcept (Frame.capture (← get).entries)
  modify fun t => { t with frames := frame :: t.frames }

/-- Take the innermost branch off, or report that none is open. -/
def takeFrame (missing : Misuse) : Step Transaction Frame := do
  let t ← get
  match t.frames with
  | [] => throw (.invalidOperation missing)
  | frame :: outer =>
    set { t with frames := outer }
    pure frame

/-- Close the innermost branch and keep what was done in it. -/
def endOr : Step Transaction Unit := do
  ensureActive
  discard (takeFrame .endWithoutStart)

/-- Close the innermost branch and roll it back. -/
def endOrElse : Step Transaction Unit := do
  ensureActive
  let frame ← takeFrame .rollbackWithoutStart
  let t ← get
  match frame.restore t.entries with
  | .ok _ entries => set { t with entries }
  | .error e entries =>
    set { t with entries }
    throw e

/-- Forget the innermost branch, if there is one, as a failing branch does. -/
def dropFrame : Step Transaction Unit :=
  modify fun t => { t with frames := t.frames.tail }

/-! ## What a commit writes -/

/-- Collect the writes of the listed entries, cleaning those that turn out unchanged. -/
def collectFrom : List Handle → Step Transaction (List PendingRecord)
  | [] => pure []
  | h :: later => do
    match (← get).entries.find? h with
    | none => collectFrom later
    | some e =>
      let (write, e) ← Step.ofExcept e.prepareWrite
      setEntry h e
      return write.toList ++ (← collectFrom later)

/-- Everything the transaction has to write, in handle order. -/
def collectWrites : Step Transaction (List PendingRecord) := do
  collectFrom (← get).entries.keys

def markAll (status : EntryStatus) (handles : List Handle) (t : Transaction) : Transaction :=
  handles.foldl
    (fun t h => { t with entries := t.entries.modify h fun e => { e with status } }) t

/-- End the transaction: the entries' statuses are kept, the entries and branches are not. -/
def finish (status : TransactionStatus) (t : Transaction) : Transaction :=
  { t with
    entries := ∅
    frames := []
    outcome := t.entries.map fun _ e => e.status
    status
    liveVersion := none }

end Transaction

end TransactionalHeap
