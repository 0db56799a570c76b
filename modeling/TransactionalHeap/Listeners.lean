import TransactionalHeap.Latch.Group
import TransactionalHeap.Snapshot

/-!
# Listeners

Every object that some transaction has waited for has a latch group, whose active version is the
newest known commit that wrote the object. A waiting transaction files one latch with each object
it read, to be opened by any version after its start. A commit activates the groups of what it
wrote.

Registering with an object takes four steps: make sure of its group, look the object's version up
in the heap, activate that version, file the latch. A commit first publishes its snapshot and then
activates. Whichever side comes second sees what the first has done.
-/

namespace TransactionalHeap

variable [Transactables]

structure Listeners where
  groups : SortedMap Handle LatchGroup := ∅
  latches : Latches := {}

namespace Listeners

/-- Give the object a group unless it has one. -/
def ensureGroup (l : Listeners) (h : Handle) : Listeners :=
  if l.groups.contains h then l else { l with groups := l.groups.insert h {} }

/-- Apply a change to the group of an object; an object without a group stays without one. -/
def onGroup (l : Listeners) (h : Handle)
    (change : LatchGroup → Latches → LatchGroup × Latches) : Listeners :=
  match l.groups.find? h with
  | none => l
  | some g =>
    let (g, latches) := change g l.latches
    { groups := l.groups.insert h g, latches }

def activate (l : Listeners) (h : Handle) (version : Version) : Listeners :=
  l.onGroup h fun g ls => g.activate version ls

def file (l : Listeners) (h : Handle) (trigger : Version) (latch : LatchId) : Listeners :=
  l.onGroup h fun g ls => g.add trigger latch ls

def withdraw (l : Listeners) (h : Handle) (trigger : Version) (latch : LatchId) : Listeners :=
  l.onGroup h fun g ls => (g.remove trigger latch, ls)

def openLatch (l : Listeners) (latch : LatchId) : Listeners :=
  { l with latches := l.latches.openOne latch }

/-- Withdraw a latch that waits for any version after `start` from every listed object. -/
def deregister (l : Listeners) (handles : List Handle) (start : Version) (latch : LatchId) :
    Listeners :=
  handles.foldl (fun l h => l.withdraw h start.next latch) l

/-- Register with the listed objects, having filed with `filed` already, in the heap whose head is
`head`. Registering ends early once the latch is open. -/
def registerFrom (head : Snapshot) (start : Version) (latch : LatchId) (filed : List Handle) :
    List Handle → Step Listeners (List Handle)
  | [], l => .ok filed l
  | h :: later, l =>
    let l := l.ensureGroup h
    match head.versionOf h with
    | none => .error (.internal (.unknownListened h)) (l.deregister filed start latch)
    | some written =>
      let l := (l.activate h written).file h start.next latch
      let filed := filed ++ [h]
      if l.latches.isOpen latch then .ok filed l
      else registerFrom head start latch filed later l

/-- File a latch with every listed object, to be opened by any version after `start`. Gives the
objects it is filed with. -/
def register (head : Snapshot) (handles : List Handle) (start : Version) (latch : LatchId) :
    Step Listeners (List Handle) := fun l =>
  if handles.isEmpty then .error (.noProgress .noDependencies) l
  else registerFrom head start latch [] handles l

/-- Tell the listeners of the written objects about a commit. -/
def notify (l : Listeners) (handles : List Handle) (version : Version) : Listeners :=
  handles.foldl (fun l h => l.activate h version) l

def bucketCount (l : Listeners) : Nat := (l.groups.values.map LatchGroup.bucketCount).foldr (· + ·) 0

end Listeners

end TransactionalHeap
