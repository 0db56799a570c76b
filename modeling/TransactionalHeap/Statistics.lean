import TransactionalHeap.Error

/-!
# Statistics and events

Counters of what transactions did, and the calls that an observer of the engine receives. Nothing
reads either to make a decision.
-/

namespace TransactionalHeap

structure Statistics where
  started : Nat := 0
  committed : Nat := 0
  readOnlyCommits : Nat := 0
  aborted : Nat := 0
  retries : Nat := 0
  writeConflicts : Nat := 0
  lockFailures : Nat := 0
  deriving DecidableEq, Repr, Inhabited

/-- The commits that published a version. -/
def Statistics.updateCommits (s : Statistics) : Nat := s.committed - s.readOnlyCommits

/-- Why a transaction was aborted. -/
inductive AbortReason where
  | byCaller
  | failed (e : Error)
  deriving DecidableEq, Repr

def AbortReason.message : AbortReason → String
  | .byCaller => "aborted by caller"
  | .failed e => e.message

/-- What an observer is told. -/
inductive Event where
  | began (id : TxnId) (start : Version)
  | committed (id : TxnId) (version : Version) (writes : Nat)
  | aborted (id : TxnId) (reason : AbortReason)
  | retried (id : TxnId) (reads : Nat)
  | conflicted (id : TxnId) (e : Error)
  deriving DecidableEq, Repr

end TransactionalHeap
