import TransactionalHeap.Latch
import TransactionalHeap.Identity

/-!
# Latches filed by version

A bucket holds latches until it is opened, which opens them all; a latch added later is opened at
once. A group follows the newest version known to be active and files latches in one bucket per
trigger version. Activating a version opens and drops every bucket whose trigger it reaches, so a
bucket that is present always waits for a version still to come.
-/

namespace TransactionalHeap

structure LatchBucket where
  isOpen : Bool := false
  latches : List LatchId := []
  deriving DecidableEq, Repr, Inhabited

namespace LatchBucket

def add (b : LatchBucket) (latch : LatchId) (ls : Latches) : LatchBucket × Latches :=
  if b.isOpen then (b, ls.openOne latch) else ({ b with latches := b.latches ++ [latch] }, ls)

/-- Withdraw every filing of a latch. -/
def remove (b : LatchBucket) (latch : LatchId) : LatchBucket :=
  { b with latches := b.latches.filter (· != latch) }

/-- Open the bucket and all latches in it. -/
def release (b : LatchBucket) (ls : Latches) : LatchBucket × Latches :=
  if b.isOpen then (b, ls) else ({ isOpen := true, latches := [] }, ls.openAll b.latches)

end LatchBucket

structure LatchGroup where
  active : Version := 0
  buckets : SortedMap Version LatchBucket := ∅

namespace LatchGroup

/-- File a latch under a trigger version. An open latch is not filed, and one whose trigger is
reached already is opened instead. -/
def add (g : LatchGroup) (trigger : Version) (latch : LatchId) (ls : Latches) :
    LatchGroup × Latches :=
  if ls.isOpen latch then (g, ls)
  else if trigger ≤ g.active then (g, ls.openOne latch)
  else
    let (bucket, ls) := ((g.buckets.find? trigger).getD {}).add latch ls
    ({ g with buckets := g.buckets.insert trigger bucket }, ls)

/-- Withdraw a latch from a trigger version; a bucket left empty is dropped. -/
def remove (g : LatchGroup) (trigger : Version) (latch : LatchId) : LatchGroup :=
  match g.buckets.find? trigger with
  | none => g
  | some bucket =>
    let bucket := bucket.remove latch
    if bucket.latches.isEmpty then { g with buckets := g.buckets.erase trigger }
    else { g with buckets := g.buckets.insert trigger bucket }

/-- The buckets that a version reaches. -/
def due (g : LatchGroup) (version : Version) : List LatchBucket :=
  (g.buckets.filter fun trigger _ => trigger ≤ version).values

/-- Advance the active version. An older version, or the same again, changes nothing. -/
def activate (g : LatchGroup) (version : Version) (ls : Latches) : LatchGroup × Latches :=
  if version ≤ g.active then (g, ls)
  else
    ({ active := version, buckets := g.buckets.filter fun trigger _ => version < trigger },
      (g.due version).foldl (fun ls bucket => (bucket.release ls).2) ls)

def bucketCount (g : LatchGroup) : Nat := g.buckets.size

end LatchGroup

end TransactionalHeap
