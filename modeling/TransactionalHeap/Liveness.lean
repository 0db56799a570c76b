import TransactionalHeap.Identity

/-!
# Live versions

The start versions of the running transactions, each counted as often as it is held. The oldest of
them bounds what a reader may still ask for.
-/

namespace TransactionalHeap

/-- How many transactions run from each version. Only positive counts are kept. -/
structure Liveness where
  counts : SortedMap Version Nat := ∅

namespace Liveness

def count (l : Liveness) (v : Version) : Nat := (l.counts.find? v).getD 0

def register (l : Liveness) (v : Version) : Liveness := ⟨l.counts.insert v (l.count v + 1)⟩

/-- Give up one registration; a version that nobody holds is passed over. -/
def release (l : Liveness) (v : Version) : Liveness :=
  match l.counts.find? v with
  | none => l
  | some n => if n ≤ 1 then ⟨l.counts.erase v⟩ else ⟨l.counts.insert v (n - 1)⟩

def oldest (l : Liveness) : Option Version := l.counts.keys.head?

def total (l : Liveness) : Nat := l.counts.values.foldr (· + ·) 0

end Liveness

end TransactionalHeap
