import TransactionalHeap.Record

/-!
# Entries of a read and write set

What a transaction keeps for one object: the live object once it is rebuilt, the record it was
loaded from, and how the two compare. An entry with an origin is a read dependency; one without
was attached by the transaction itself.
-/

namespace TransactionalHeap

variable [Transactables]

inductive EntryStatus where
  | fresh | clean | dirty | committed | conflict
  deriving DecidableEq, Repr, Inhabited

/-- Fresh and dirty entries may have to be written. -/
def EntryStatus.isWriteCandidate : EntryStatus → Bool
  | .fresh | .dirty => true
  | .clean | .committed | .conflict => false

structure Entry where
  handle : Handle
  object : Option Object
  origin : Option Record
  materializer : Materializer
  status : EntryStatus

/-- What a branch keeps of an entry to bring it back. The state is that of a changed object; an
unchanged one is rebuilt from its origin when it is needed. -/
structure SavedEntry where
  origin : Option Record
  materializer : Materializer
  status : EntryStatus
  state : Option Fields
  deriving DecidableEq

namespace Entry

/-- An object that the transaction attached. -/
def fresh (handle : Handle) (o : Object) : Entry where
  handle
  object := some o
  origin := none
  materializer := ⟨o.type⟩
  status := .fresh

/-- A stored object that is not rebuilt yet. -/
def deferred (r : Record) : Entry where
  handle := r.handle
  object := none
  origin := some r
  materializer := r.materializer
  status := .clean

def isReadDependency (e : Entry) : Bool := e.origin.isSome

def isMaterialized (e : Entry) : Bool := e.object.isSome

/-- The live object. -/
def live (e : Entry) : Except Error Object :=
  match e.object with
  | some o => .ok o
  | none => .error (.internal (.notMaterialized e.handle))

/-- Rebuild the object from the origin unless it is there. -/
def materialize (e : Entry) : Except Error Entry :=
  match e.object, e.origin with
  | some _, _ => .ok e
  | none, some r => do return { e with object := some (← r.rebuild) }
  | none, none => .error (.internal (.hollowEntry e.handle))

/-- The live object as one of the given type. -/
def get (e : Entry) (type : ObjectType) : Except Error Object := do
  (← e.live).castTo type

/-- The live object for a change. An unchanged entry counts as dirty from here on. -/
def getForWrite (e : Entry) (type : ObjectType) : Except Error (Object × Entry) := do
  let o ← e.get type
  match e.status with
  | .clean | .committed => return (o, { e with status := .dirty })
  | .fresh | .dirty | .conflict => return (o, e)

/-- Put another object in place of a fresh one. -/
def replaceFresh (e : Entry) (o : Object) : Except Error Entry :=
  match e.status with
  | .fresh => .ok { e with object := some o, materializer := ⟨o.type⟩ }
  | .clean | .dirty | .committed | .conflict =>
    .error (.invalidOperation (.alreadyLoaded e.handle))

/-- The current fields: those of the live object, else the stored ones. -/
def dematerialize (e : Entry) : Except Error Fields :=
  match e.object, e.origin with
  | some o, _ => .ok o.dematerialize
  | none, some r => .ok r.fields
  | none, none => .error (.internal (.hollowEntry e.handle))

/-- A dirty entry whose object is again what it was loaded as. -/
def isUnchanged (e : Entry) (o : Object) : Bool :=
  e.status = .dirty && match e.origin with
    | some r => r.type = o.type && r.sameFields o.dematerialize
    | none => false

/-- What a commit has to write for the entry, if anything. A dirty entry that turns out unchanged
is clean again and not written. -/
def prepareWrite (e : Entry) : Except Error (Option PendingRecord × Entry) :=
  if e.status.isWriteCandidate then do
    let o ← e.live
    if e.isUnchanged o then return (none, { e with status := .clean })
    else return (some ⟨e.handle, o.type, e.materializer, o.dematerialize⟩, e)
  else .ok (none, e)

def save (e : Entry) : Except Error SavedEntry :=
  let kept (state : Option Fields) : SavedEntry := ⟨e.origin, e.materializer, e.status, state⟩
  match e.status with
  | .fresh | .dirty => do return kept (some (← e.live).dematerialize)
  | .clean | .committed | .conflict => .ok (kept none)

end Entry

/-- Bring back a saved entry, rebuilding the object that it kept the state of. -/
def SavedEntry.restore (handle : Handle) (s : SavedEntry) : Except Error Entry :=
  let entry (object : Option Object) : Entry := ⟨handle, object, s.origin, s.materializer, s.status⟩
  match s.state, s.origin with
  | some fields, _ => do return entry (some (← s.materializer.run fields))
  | none, some _ => .ok (entry none)
  | none, none => .error (.internal (.hollowSave handle))

/-- The entries of a transaction, each under its handle. -/
abbrev Entries := SortedMap Handle Entry

/-- What a branch keeps of all entries. They are saved and brought back in ascending handle order, and
any other order would do as well (`Frame.captureFrom_eq`, `Frame.restoreFrom_eq`). -/
structure Frame where
  saved : SortedMap Handle SavedEntry

namespace Frame

def capture (entries : Entries) : Except Error Frame := do
  return ⟨← entries.traverse fun _ e => e.save⟩

/-- The entries made since the capture that were loaded. Their objects are forgotten, the read
dependencies stay. -/
def laterReads (f : Frame) (entries : Entries) : Entries :=
  entries.filterMap fun h e => if f.saved.contains h then none else e.origin.map .deferred

/-- Bring the entries back to the capture, keeping what was read since. The entries are given up
before the saved ones are rebuilt, so a failure leaves none. -/
def restore (f : Frame) : Step Entries Unit := fun entries =>
  match f.saved.traverse SavedEntry.restore with
  | .ok rebuilt => .ok () ((f.laterReads entries).union rebuilt)
  | .error e => .error e ∅

end Frame

end TransactionalHeap
