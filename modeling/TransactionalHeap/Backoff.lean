/-!
# Backoff

How long an attempt spins before the next one. The bound of an exponential backoff caps the spins
that are really done, not the number computed for an attempt.
-/

namespace TransactionalHeap

inductive Backoff where
  | none
  | exponential (maxSpins : UInt32)
  deriving DecidableEq, Repr, Inhabited

/-- The spins computed for an attempt: doubled each time, until a 32-bit word has no room left. -/
def Backoff.spinsFor : Backoff → Nat → Nat
  | .none, _ => 0
  | .exponential _, attempt => 1 <<< min attempt 31

end TransactionalHeap
