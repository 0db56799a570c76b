import TransactionalHeap.Snapshot
import TransactionalHeap.Backoff

/-!
# The heap

The heap is its newest snapshot, which a commit replaces by an extension of it. Before that, every
written object that existed in the committer's start snapshot must still have the version it had
there. Objects new to the start snapshot are not checked.

A commit is a loop of attempts: load the head, check for conflicts, build the next snapshot, and
swap it in if the head is still the one loaded. `commitAmong` runs rivals at the one point of an
attempt where another commit can get in between. `commit` is the case without rivals.
-/

namespace TransactionalHeap

variable [Transactables]

structure Heap where
  head : Snapshot
  oldest : Version
  backoff : Backoff := .none
  commits : Nat := 0
  casFailures : Nat := 0
  writeConflicts : Nat := 0

namespace Heap

/-- An empty heap whose first snapshot has the given version. -/
def ofVersion (version : Version) (backoff : Backoff := .none) : Heap where
  head := .genesis version
  oldest := version
  backoff

def version (h : Heap) : Version := h.head.version

def snapshotAt (h : Heap) (version : Version) : Except Error Snapshot := h.head.asOf version

def readAt (h : Heap) (handle : Handle) (version : Version) : Except Error (Option Record) := do
  return (← h.snapshotAt version).read handle

/-- The first write, in list order, to an object that existed at the start and has another version
now. -/
def firstConflict (start current : Snapshot) : List PendingRecord → Option Error
  | [] => none
  | write :: rest =>
    match start.versionOf write.handle with
    | none => firstConflict start current rest
    | some expected =>
      let actual := current.versionOf write.handle
      if actual = some expected then firstConflict start current rest
      else some (.writeConflict write.handle (some expected) actual)

/-- Nothing has changed between a snapshot and itself. -/
theorem firstConflict_self (s : Snapshot) (writes : List PendingRecord) :
    firstConflict s s writes = none := by
  induction writes with
  | nil => rfl
  | cons write rest ih =>
    unfold firstConflict
    split
    · exact ih
    · next expected he => simp [he, ih]

/-- Replace the head by its extension. -/
def publish (h : Heap) (writes : List PendingRecord) : Heap :=
  { h with head := h.head.extend writes, commits := h.commits + 1 }

/-- Commit with nobody in between. An empty write list changes nothing. -/
def commit (start : Snapshot) (writes : List PendingRecord) : Step Heap Version := fun h =>
  if writes.isEmpty then .ok h.version h
  else match firstConflict start h.head writes with
    | some e => .error e { h with writeConflicts := h.writeConflicts + 1 }
    | none =>
      let h := h.publish writes
      .ok h.version h

/-- A commit that gets in between. Without a start of its own it starts at the head it meets. -/
structure Rival where
  start : Option Snapshot := none
  writes : List PendingRecord

def Rival.run (r : Rival) (h : Heap) : Except Error Version × Heap :=
  (commit (r.start.getD h.head) r.writes).result h

/-- How a commit among rivals ends, and what each rival that ran got. -/
structure RaceResult where
  result : Except Error Version
  heap : Heap
  rivals : List (Except Error Version) := []

/-- Commit with the k-th rival running completely between the conflict check and the swap of the
k-th attempt. A rival that published makes the swap fail, and the next attempt starts afresh. -/
def commitAmong (start : Snapshot) (writes : List PendingRecord) : List Rival → Heap → RaceResult
  | [], h =>
    let (result, h) := (commit start writes).result h
    { result, heap := h }
  | rival :: later, h =>
    if writes.isEmpty then { result := .ok h.version, heap := h }
    else match firstConflict start h.head writes with
      | some e => { result := .error e, heap := { h with writeConflicts := h.writeConflicts + 1 } }
      | none =>
        let (answer, met) := rival.run h
        if met.head.depth = h.head.depth then
          let met := met.publish writes
          { result := .ok met.version, heap := met, rivals := [answer] }
        else
          let rest := commitAmong start writes later { met with casFailures := met.casFailures + 1 }
          { rest with rivals := answer :: rest.rivals }

end Heap

end TransactionalHeap
