import TransactionalHeap.Tree

/-!
# Snapshots

A snapshot is the whole store at one version, with the snapshot it replaced. The first one of a
heap is empty. Snapshots never change, so the past stays readable along the parents.
-/

namespace TransactionalHeap

variable [Transactables]

inductive Snapshot where
  | genesis (version : Version)
  | commit (version : Version) (tree : HeapTree) (parent : Snapshot)

namespace Snapshot

def version : Snapshot → Version
  | genesis v => v
  | commit v _ _ => v

def tree : Snapshot → HeapTree
  | genesis _ => ∅
  | commit _ t _ => t

/-- The number of commits since the first snapshot. Of two snapshots in one heap's history, equal
depth means the same snapshot. -/
def depth : Snapshot → Nat
  | genesis _ => 0
  | commit _ _ parent => parent.depth + 1

/-- The snapshot itself and all it descends from, newest first. -/
def chain : Snapshot → List Snapshot
  | genesis v => [genesis v]
  | commit v t parent => commit v t parent :: parent.chain

def versionOf (s : Snapshot) (h : Handle) : Option Version := (s.tree.find? h).map Cell.version

def read (s : Snapshot) (h : Handle) : Option Record := s.tree.get? h

def contains (s : Snapshot) (h : Handle) : Bool := (s.tree.find? h).isSome

def count (s : Snapshot) : Nat := s.tree.length

/-- The newest snapshot along the parents that is not newer than `requested`. -/
def asOf (requested : Version) : Snapshot → Except Error Snapshot
  | genesis v => if v ≤ requested then .ok (genesis v) else .error (.snapshotTooOld requested v)
  | commit v t parent => if v ≤ requested then .ok (commit v t parent) else parent.asOf requested

/-- The snapshot that follows when the writes are applied in order, all stamped with its version. -/
def extend (s : Snapshot) (writes : List PendingRecord) : Snapshot :=
  commit s.version.next (s.tree.insertAll (writes.map (·.stamp s.version.next))) s

end Snapshot

end TransactionalHeap
