import TransactionalHeap.Error

/-!
# Commit locks

Before its conflict check a committer takes a lock on every object it writes, in ascending order.
A lock that another owner holds fails the whole acquisition, and what was taken so far is given
back. An owner may take again what it holds; giving back releases every listed object that the
owner holds, however often it took it.
-/

namespace TransactionalHeap

inductive LockPolicy where
  | failFast
  | spin (attempts : UInt32)
  deriving DecidableEq, Repr, Inhabited

/-- How often a held lock is tried again. -/
def LockPolicy.retries : LockPolicy → Nat
  | .failFast => 0
  | .spin attempts => attempts.toNat

/-- The owner of every locked object. -/
structure LockTable where
  owners : SortedMap Handle TxnId := ∅

/-- The objects that one acquisition took for its owner. -/
structure LockGuard where
  owner : TxnId
  held : List Handle
  deriving DecidableEq, Repr, Inhabited

namespace LockTable

def holderOf (t : LockTable) (h : Handle) : Option TxnId := t.owners.find? h

def lockedCount (t : LockTable) : Nat := t.owners.size

/-- Take one lock, or say who holds it. -/
def tryLock (t : LockTable) (owner : TxnId) (h : Handle) : Except TxnId LockTable :=
  match t.owners.find? h with
  | none => .ok ⟨t.owners.insert h owner⟩
  | some holder => if holder = owner then .ok t else .error holder

/-- Try one lock, and again as often as allowed. Nobody else runs in between, so every try meets
the same table. -/
def lockOne (t : LockTable) (owner : TxnId) (h : Handle) : Nat → Except TxnId LockTable
  | 0 => t.tryLock owner h
  | more + 1 =>
    match t.tryLock owner h with
    | .ok t => .ok t
    | .error _ => lockOne t owner h more

theorem lockOne_eq_tryLock (t : LockTable) (owner : TxnId) (h : Handle) (more : Nat) :
    t.lockOne owner h more = t.tryLock owner h := by
  induction more with
  | zero => rfl
  | succ more ih =>
    unfold lockOne
    split
    · next he => rw [he]
    · exact ih

def release (t : LockTable) (owner : TxnId) (h : Handle) : LockTable :=
  if t.owners.find? h = some owner then ⟨t.owners.erase h⟩ else t

/-- Give back what a guard holds. -/
def drop (t : LockTable) (guard : LockGuard) : LockTable :=
  guard.held.foldl (fun t h => t.release guard.owner h) t

/-- Take the remaining locks after those in `held`. -/
def acquireFrom (owner : TxnId) (policy : LockPolicy) (held : List Handle) :
    List Handle → Step LockTable LockGuard
  | [], t => .ok ⟨owner, held⟩ t
  | h :: later, t =>
    match t.lockOne owner h policy.retries with
    | .ok t => acquireFrom owner policy (held ++ [h]) later t
    | .error holder => .error (.locksUnavailable h holder) (t.drop ⟨owner, held⟩)

/-- Take the locks of all listed objects, ascending and without repeats, or none. -/
def acquire (owner : TxnId) (handles : List Handle) (policy : LockPolicy) :
    Step LockTable LockGuard :=
  acquireFrom owner policy [] (Handle.sortDistinct handles)

end LockTable

end TransactionalHeap
