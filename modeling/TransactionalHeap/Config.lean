import TransactionalHeap.Backoff
import TransactionalHeap.Locks

/-!
# Configuration

The settings of an engine. `validate` refuses a backoff that could never spin.
-/

namespace TransactionalHeap

structure Config where
  initialVersion : Version := 0
  /-- How many conflicts one atomic call gets over; without a bound it never gives up. -/
  maxConflictRetries : Option UInt32 := none
  lockPolicy : LockPolicy := .failFast
  commitBackoff : Backoff := .none
  conflictBackoff : Backoff := .exponential 1024
  deriving DecidableEq, Repr, Inhabited

namespace Config

/-- A backoff spins at least once, or not at all by choice. -/
def checkBackoff (setting : String) : Backoff → Except Error Unit
  | .none => .ok ()
  | .exponential maxSpins =>
    if maxSpins = 0 then .error (.config (.idleBackoff setting)) else .ok ()

def validate (c : Config) : Except Error Unit := do
  checkBackoff "commit_backoff" c.commitBackoff
  checkBackoff "conflict_backoff" c.conflictBackoff

end Config

end TransactionalHeap
