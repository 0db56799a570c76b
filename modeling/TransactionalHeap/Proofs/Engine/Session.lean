import TransactionalHeap.Proofs.Engine.Steps
import TransactionalHeap.Proofs.Transaction.Collecting
import TransactionalHeap.Proofs.Transaction.Simulation

/-!
# Sessions

A session is an engine in the middle of a run in which any number of transactions take turns. The
calls that others may get into come in parts: a commit publishes and then concludes, a retry parks,
suspends and wakes up again. A transaction in such a call does nothing else until it is over. Whoever
waits may wake at any time, which only allows for more runs than there are.

What transactions see of each other is the session's core. `Core.Moves` says once what an action can
do to it, and `Core.Sound` is what holds of it in every run.
-/
namespace TransactionalHeap

variable [Transactables]

/-- Where a transaction is inside a call. -/
inductive InCall where
  | committing (p : Publication)
  | parked (p : Parked)
  | suspended (p : Parked)

/-- An action of a transaction, or the begin of a new one. -/
inductive Action where
  | begin
  | beginAt (version : Version)
  | drop (id : TxnId)
  | attach (id : TxnId) (o : Object)
  | perform (id : TxnId) (op : Op)
  | abort (id : TxnId)
  | publish (id : TxnId)
  | conclude (id : TxnId)
  | park (id : TxnId)
  | suspend (id : TxnId)
  | wake (id : TxnId)

/-- An action that brings in good objects only. -/
def Action.Within (good : Object → Prop) : Action → Prop
  | .attach _ o => good o
  | .perform _ op => op.Within good
  | .begin | .beginAt _ | .drop _ | .abort _ | .publish _ | .conclude _ | .park _ | .suspend _
  | .wake _ => True

/-- The type and the fields that were read under a handle. -/
abbrev ReadValue := Handle × ObjectType × Fields

/-- What a commit that publishes has behind it: what the transaction read, where, and what it
writes. -/
structure Committed where
  id : TxnId
  start : Snapshot
  reads : List ReadValue
  version : Version
  writes : List PendingRecord

/-- The type and the fields of what a record holds. -/
def Record.content (r : Record) : ObjectType × Fields := (r.type, r.fields)

/-- Everything that a transaction has read, ascending by handle. -/
def Transaction.readValues (t : Transaction) : List ReadValue :=
  (t.entries.filterMap fun _ e => e.origin.map Record.content).entries

structure Session where
  engine : Engine
  calls : SortedMap TxnId InCall := ∅

namespace Session

def ofConfig (config : Config) : Session := { engine := .ofConfig config }

/-- A step of the engine, whatever its result. -/
def onEngine {α : Type} (step : Step Engine α) (s : Session) : Session :=
  { s with engine := step.after s.engine }

/-- An action of a transaction that is in no call. -/
def unlessCalling (id : TxnId) (act : Session → Session) (s : Session) : Session :=
  if s.calls.contains id then s else act s

/-- Carry an action out; one that is not due does nothing. -/
def step (s : Session) : Action → Session
  | .begin => s.onEngine Engine.begin
  | .beginAt v => s.onEngine (Engine.beginAt v)
  | .drop id => s.unlessCalling id (onEngine (Engine.drop id))
  | .attach id o => s.unlessCalling id (onEngine (Engine.attach id o))
  | .perform id op => s.unlessCalling id (onEngine (Engine.on id op.run))
  | .abort id => s.unlessCalling id (onEngine (Engine.abort id))
  | .publish id => s.unlessCalling id fun s =>
    match Engine.beginCommit id s.engine with
    | .ok (.published p) engine => { engine, calls := s.calls.insert id (.committing p) }
    | .ok (.settled _) engine | .error _ engine => { s with engine }
  | .conclude id =>
    match s.calls.find? id with
    | some (.committing p) =>
      { engine := (Engine.endCommit id p).after s.engine, calls := s.calls.erase id }
    | some (.parked _) | some (.suspended _) | none => s
  | .park id => s.unlessCalling id fun s =>
    match Engine.park id s.engine with
    | .ok p engine => { engine, calls := s.calls.insert id (.parked p) }
    | .error _ engine => { s with engine }
  | .suspend id =>
    match s.calls.find? id with
    | some (.parked p) =>
      { engine := (Engine.suspend id).after s.engine, calls := s.calls.insert id (.suspended p) }
    | some (.committing _) | some (.suspended _) | none => s
  | .wake id =>
    match s.calls.find? id with
    | some (.suspended p) =>
      { engine := (Engine.wake id p).after s.engine, calls := s.calls.erase id }
    | some (.committing _) | some (.parked _) | none => s

def run (actions : List Action) (s : Session) : Session := actions.foldl step s

/-- The commit that an action publishes, if it does. -/
def published? (s : Session) : Action → Option Committed
  | .publish id =>
    if s.calls.contains id then none
    else match s.engine.held.find? id, Engine.beginCommit id s.engine with
      | some t, .ok (.published p) _ =>
        match Transaction.collectWrites t with
        | .ok writes _ =>
          some { id, start := t.snapshot, reads := t.readValues, version := p.version, writes }
        | .error _ _ => none
      | _, _ => none
  | _ => none

/-- The commits that a run publishes, in order. -/
def commits : List Action → Session → List Committed
  | [], _ => []
  | a :: later, s => (s.published? a).toList ++ commits later (s.step a)

end Session

/-! ## The core of a session -/

/-- What transactions see of each other. -/
structure Core where
  head : Snapshot
  held : SortedMap TxnId Transaction
  calls : SortedMap TxnId InCall
  nextTransaction : TxnId
  nextHandle : Nat

def Session.core (s : Session) : Core where
  head := s.engine.store.heap.head
  held := s.engine.held
  calls := s.calls
  nextTransaction := s.engine.store.nextTransaction
  nextHandle := s.engine.nextHandle

/-- A transaction that has just begun. -/
def Transaction.begun (id : TxnId) (snapshot : Snapshot) : Transaction :=
  { id, snapshot, liveVersion := some snapshot.version }

/-- The transaction has ended: it is not active and has neither entries nor branches. -/
structure Transaction.Ended (t t' : Transaction) : Prop where
  id_eq : t'.id = t.id
  snapshot_eq : t'.snapshot = t.snapshot
  inactive : t'.status ≠ .active
  entries : t'.entries = ∅
  frames : t'.frames = []

namespace Core

/-- The action may leave the core as it is: it is not due, or it is refused. -/
def MayRefuse (c : Core) : Action → Prop
  | .begin => False
  | .beginAt v => c.head.version < v ∨ ∃ fault, c.head.asOf v = .error fault
  | .attach id _ => c.calls.find? id ≠ none
  | .drop id | .perform id _ => c.calls.find? id ≠ none ∨ c.held.find? id = none
  | .abort id => c.calls.find? id ≠ none ∨ ∀ t, c.held.find? id = some t → t.status ≠ .active
  | .publish _ | .park _ => True
  | .conclude id => ∀ p, c.calls.find? id ≠ some (.committing p)
  | .suspend id => ∀ p, c.calls.find? id ≠ some (.parked p)
  | .wake id => ∀ p, c.calls.find? id ≠ some (.suspended p)

/-- What an action can do to the core, and the commit that it publishes, if it does. -/
inductive Moves (good : Object → Prop) (c : Core) : Action → Option Committed → Core → Prop
  | nothing {a : Action} (mayRefuse : c.MayRefuse a) : Moves good c a none c
  | usedHandle {id : TxnId} {o : Object} (absent : c.held.find? id = none) :
      Moves good c (.attach id o) none { c with nextHandle := c.nextHandle + 1 }
  | began {a : Action} {past : Snapshot} (which : a = .begin ∧ past = c.head ∨
        ∃ v, a = .beginAt v ∧ ¬ c.head.version < v ∧ c.head.asOf v = .ok past) :
      Moves good c a none { c with
        held := c.held.insert c.nextTransaction (.begun c.nextTransaction past)
        nextTransaction := c.nextTransaction + 1 }
  | dropped {id : TxnId} {t : Transaction} (held : c.held.find? id = some t)
      (free : c.calls.find? id = none) :
      Moves good c (.drop id) none { c with held := c.held.erase id }
  | performed {id : TxnId} {op : Op} {t : Transaction} (held : c.held.find? id = some t)
      (free : c.calls.find? id = none) :
      Moves good c (.perform id op) none { c with held := c.held.insert id (op.run.after t) }
  | attached {id : TxnId} {o : Object} {t : Transaction} (held : c.held.find? id = some t)
      (free : c.calls.find? id = none) :
      Moves good c (.attach id o) none { c with
        held := c.held.insert id ((Op.attachTo ⟨c.nextHandle⟩ o).run.after t)
        nextHandle := c.nextHandle + 1 }
  | ended {a : Action} {id : TxnId} {t t' : Transaction} (held : c.held.find? id = some t)
      (which : a = .abort id ∨ a = .publish id ∨ a = .conclude id) (hasEnded : t.Ended t') :
      Moves good c a none { c with held := c.held.insert id t', calls := c.calls.erase id }
  | published {id : TxnId} {t t' : Transaction} {writes : List PendingRecord} {p : Publication}
      (held : c.held.find? id = some t) (free : c.calls.find? id = none)
      (active : t.status = .active) (closed : t.frames = [])
      (collected : Transaction.collectWrites t = .ok writes t')
      (rest : t' = { t with entries := t'.entries }) (sound : t'.Sound good)
      (due : ∀ w ∈ writes, ∃ o, t.Due good w o) (nonempty : writes ≠ [])
      (unconflicted : Heap.firstConflict t.snapshot c.head writes = none)
      (version : p.version = c.head.version.next)
      (handles : p.handles = writes.map PendingRecord.handle) :
      Moves good c (.publish id)
        (some { id, start := t.snapshot, reads := t.readValues, version := p.version, writes })
        { c with
          head := c.head.extend writes
          held := c.held.insert id t'
          calls := c.calls.insert id (.committing p) }
  | parked {id : TxnId} {t : Transaction} {p : Parked} (held : c.held.find? id = some t)
      (active : t.status = .active) (free : c.calls.find? id = none) :
      Moves good c (.park id) none { c with calls := c.calls.insert id (.parked p) }
  | suspended {id : TxnId} {t : Transaction} {p : Parked} (held : c.held.find? id = some t)
      (waiting : c.calls.find? id = some (.parked p)) :
      Moves good c (.suspend id) none { c with
        held := c.held.insert id { t with entries := ∅, frames := [], liveVersion := none }
        calls := c.calls.insert id (.suspended p) }
  | woken {id : TxnId} {t : Transaction} {p : Parked} (held : c.held.find? id = some t)
      (waiting : c.calls.find? id = some (.suspended p)) :
      Moves good c (.wake id) none { c with
        held := c.held.insert id { t with
          snapshot := c.head, liveVersion := some c.head.version }
        calls := c.calls.erase id }

/-- A transaction fits the session that holds it. -/
structure Belongs (good : Object → Prop) (c : Core) (id : TxnId) (t : Transaction) : Prop where
  id_eq : t.id = id
  begun : id < c.nextTransaction
  past : t.snapshot ∈ c.head.chain
  sound : t.Sound good

/-- A transaction is active while it is inside a call, and has given up everything while it is
suspended. -/
structure Calls (t : Transaction) (call : InCall) : Prop where
  active : t.status = .active
  empty : ∀ p, call = .suspended p → t.entries = ∅ ∧ t.frames = []

/-- The heap has been built by commits of good objects, every transaction fits it, and those inside
of calls fit these. -/
structure Sound (good : Object → Prop) (c : Core) : Prop where
  lasting : Object.Lasting good
  built : Snapshot.Built (PendingRecord.Of good) c.head
  held : ∀ id t, c.held.find? id = some t → c.Belongs good id t
  calls : ∀ id call, c.calls.find? id = some call → ∃ t, c.held.find? id = some t ∧ Calls t call

end Core

/-! ## Ended transactions -/

namespace Transaction

/-- Marking changes statuses of entries and nothing else. -/
theorem markAll_rest (status : EntryStatus) (handles : List Handle) (t : Transaction) :
    t.markAll status handles = { t with entries := (t.markAll status handles).entries } := by
  induction handles generalizing t with
  | nil => rfl
  | cons h later ih =>
    rw [markAll, List.foldl_cons]
    rw [← markAll, ih]

theorem ended_finish {t marked : Transaction} (rest : marked = { t with entries := marked.entries })
    {status : TransactionStatus} (inactive : status ≠ .active) :
    t.Ended (marked.finish status) where
  id_eq := by rw [rest]; rfl
  snapshot_eq := by rw [rest]; rfl
  inactive := inactive
  entries := rfl
  frames := rfl

end Transaction

theorem Engine.markConflict_rest (fault : Error) (t : Transaction) :
    markConflict fault t = { t with entries := (markConflict fault t).entries } := by
  cases fault with
  | writeConflict h expected actual => exact t.markAll_rest .conflict [h]
  | _ => rfl

end TransactionalHeap
