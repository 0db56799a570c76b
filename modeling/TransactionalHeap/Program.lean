import TransactionalHeap.Engine

/-!
# Programs over the engine

A program runs steps of the engine one after another, beside a state of its own. It ends early by
an error, or by being stuck: it waits for a commit that nobody is there to make.

Commits, retries and atomic calls take programs that run at the points where others could get in
between. Whatever holds a transaction or a lock when a program gets stuck lets go of it. A filed
latch stays.
-/

namespace TransactionalHeap

variable [Transactables]

/-- Why a program ends early. -/
inductive Exit where
  | failed (e : Error)
  | stuck
  deriving DecidableEq, Repr

/-- The engine, beside a state that a program keeps for itself. -/
structure World (ε : Type) where
  engine : Engine
  env : ε

abbrev Program (ε α : Type) := EStateM Exit (World ε) α

namespace Program

variable {ε α : Type}

/-! ## Steps and their results -/

/-- A step of the engine as a program. -/
def lift (step : Step Engine α) : Program ε α := fun w =>
  match step w.engine with
  | .ok a engine => .ok a { w with engine }
  | .error e engine => .error (.failed e) { w with engine }

def fail (e : Error) : Program ε α := throw (.failed e)

def ofExcept (r : Except Error α) : Program ε α := lift (Step.ofExcept r)

/-- The result of a program. Being stuck is no result. -/
def attempt (program : Program ε α) : Program ε (Except Error α) := fun w =>
  match program w with
  | .ok a w => .ok (.ok a) w
  | .error (.failed e) w => .ok (.error e) w
  | .error .stuck w => .error .stuck w

/-- Run a program, and clean up after it if it ends early. -/
def cleanup (onExit : Program ε Unit) (program : Program ε α) : Program ε α := fun w =>
  match program w with
  | .ok a w => .ok a w
  | .error exit w =>
    match onExit w with
    | .ok _ w | .error _ w => .error exit w

/-- The result of a program; a transaction that it leaves stuck is let go of. -/
def attemptFor (id : TxnId) (program : Program ε α) : Program ε (Except Error α) :=
  cleanup (lift (Engine.drop id)) (attempt program)

/-! ## Alternatives -/

/-- Run the first program in a branch. If it asks to retry, roll it back and run the second. -/
def orElse (id : TxnId) (first second : Program ε α) : Program ε α := do
  lift (Engine.on id Transaction.startOr)
  match ← attempt first with
  | .ok a =>
    lift (Engine.on id Transaction.endOr)
    return a
  | .error .retry =>
    lift (Engine.on id Transaction.endOrElse)
    second
  | .error e =>
    lift (Engine.on id Transaction.dropFrame)
    fail e

/-! ## Committing and waiting -/

/-- Commit, with a program that runs while the new version is visible and its locks are held. -/
def commitWith (id : TxnId) (between : Program ε Unit) : Program ε Version := do
  match ← lift (Engine.beginCommit id) with
  | .settled version => return version
  | .published p =>
    cleanup (lift (Engine.changeStore (·.unlock p.guard))) between
    lift (Engine.endCommit id p)

/-- Nobody else runs, so a transaction whose reads are not overtaken would wait for ever. -/
def ensureWakeable (id : TxnId) : Program ε Unit := fun w =>
  if w.engine.isBlocked id then .error .stuck w else .ok () w

/-- Wait until something that was read is overtaken, and start over. The program runs once the
latch is filed. -/
def retryWith (id : TxnId) (between : Program ε Unit) : Program ε Unit := do
  let parked ← lift (Engine.park id)
  between
  ensureWakeable id
  lift (Engine.suspend id)
  lift (Engine.wake id parked)

/-! ## Atomic calls -/

/-- What an atomic call is made of: the body, which is told the number of the run and the
transaction, and the way in which it waits. -/
structure Atomic (ε α : Type) where
  body : Nat → TxnId → Program ε α
  wait : TxnId → Program ε Unit

/-- What an atomic call has behind it. Conflicts are counted in a 32-bit word, as the limit is. -/
structure Attempts where
  runs : Nat := 0
  conflicts : UInt32 := 0
  deriving DecidableEq, Repr

/-- One more conflict is more than the limit allows. -/
def Attempts.exhausts (n : Attempts) : Option UInt32 → Bool
  | none => false
  | some limit => limit < n.conflicts + 1

/-- Let go of the transaction and report a failure. -/
def giveUp (id : TxnId) (e : Error) : Program ε α := do
  lift (Engine.drop id)
  fail e

/-- Abort the transaction unless the body ended it, and report a failure. -/
def abandon (id : TxnId) (e : Error) : Program ε α := do
  if (← lift (Engine.transaction id)).isActive then
    lift (Engine.abort id)
  giveUp id e

/-- Run the body until its transaction commits. A conflict starts over on a new transaction, a
retry waits and starts over on the same one, and any other error ends the call. `fuel` bounds the
number of runs; a call that needs more is stuck. -/
def attempts (call : Atomic ε α) (limit : Option UInt32) :
    (fuel : Nat) → Attempts → TxnId → Program ε α
  | 0, _, id => do
    lift (Engine.drop id)
    throw .stuck
  | fuel + 1, n, id => do
    match ← attemptFor id (call.body n.runs id) with
    | .ok a =>
      match ← attempt (lift (Engine.commit id)) with
      | .ok _ =>
        lift (Engine.drop id)
        return a
      | .error e =>
        if !e.isRetryable || n.exhausts limit then giveUp id e
        else
          let next ← lift Engine.begin
          lift (Engine.drop id)
          attempts call limit fuel
            { n with runs := n.runs + 1, conflicts := n.conflicts + 1 } next
    | .error .retry =>
      match ← attemptFor id (call.wait id) with
      | .ok _ => attempts call limit fuel { n with runs := n.runs + 1 } id
      | .error e => abandon id e
    | .error e => abandon id e

/-- Run the body in a transaction until it commits, at most `fuel` times. -/
def atomically (call : Atomic ε α) (fuel : Nat) : Program ε α := do
  let limit := (← get).engine.store.config.maxConflictRetries
  attempts call limit fuel {} (← lift Engine.begin)

/-- An atomic call into which nobody gets. -/
def Atomic.ofBody (body : TxnId → Program ε α) : Atomic ε α where
  body _ := body
  wait id := retryWith id (pure ())

end Program

end TransactionalHeap
