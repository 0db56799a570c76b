import TransactionalHeap.Value

/-!
# Errors

Every layer reports one type of error. A constructor names a cause and carries what the cause is
about; the wording is `Error.message` alone. Four families also take a text of the application's
own, for failures that a transaction body raises itself.
-/

namespace TransactionalHeap

/-- What a reader of fields asks for. -/
inductive Expectation where
  | one (kind : ValueKind)
  | refOrNull
  deriving DecidableEq, Repr

def Expectation.name : Expectation → String
  | .one kind => kind.name
  | .refOrNull => "Ref or Null"

/-- Why stored fields cannot be read as an object. -/
inductive DecodeFault where
  | pastEnd (position count : Nat)
  | mismatch (position : Nat) (expected : Expectation) (found : ValueKind)
  | unread (typeName : String) (count : Nat)
  | custom (text : String)
  deriving DecidableEq, Repr

def DecodeFault.message : DecodeFault → String
  | .pastEnd position count =>
    "field " ++ toString position ++ " requested but record has " ++ toString count ++ " fields"
  | .mismatch position expected found =>
    "field " ++ toString position ++ ": expected " ++ expected.name ++ ", found " ++ found.name
  | .unread typeName count => typeName ++ " left " ++ toString count ++ " unread fields"
  | .custom text => text

/-- Why an operation does not apply to its transaction or heap. -/
inductive Misuse where
  | beginAhead (requested current : Version)
  | readAhead (requested : Version)
  | alreadyCommitted (handle : Handle)
  | alreadyLoaded (handle : Handle)
  | openBranches (count : Nat)
  | endWithoutStart
  | rollbackWithoutStart
  | custom (text : String)
  deriving DecidableEq, Repr

def Misuse.message : Misuse → String
  | .beginAhead requested current =>
    "cannot begin at version " ++ toString requested ++ ", heap is at " ++ toString current
  | .readAhead requested => "version " ++ toString requested ++ " is newer than the heap"
  | .alreadyCommitted h => "object " ++ h.label ++ " is already committed"
  | .alreadyLoaded h =>
    "object " ++ h.label ++ " was loaded from the heap and cannot be attached"
  | .openBranches count => "commit with " ++ toString count ++ " open or-else branches"
  | .endWithoutStart => "end_or without start_or"
  | .rollbackWithoutStart => "end_or_else without start_or"
  | .custom text => text

/-- A broken promise of the engine itself. -/
inductive Defect where
  | notMaterialized (handle : Handle)
  | hollowEntry (handle : Handle)
  | hollowSave (handle : Handle)
  | vanished (handle : Handle)
  | unknownListened (handle : Handle)
  | unknownTransaction (id : TxnId)
  | orderViolated (before after : Handle)
  | wrongHeight (node : Handle) (cached measured : Nat)
  | outOfBalance (node : Handle) (left right : Nat)
  | wrongLength (cached reachable : Nat)
  | custom (text : String)
  deriving DecidableEq, Repr

def Defect.message : Defect → String
  | .notMaterialized h => "tranlocal " ++ h.label ++ " is not materialized"
  | .hollowEntry h => "tranlocal " ++ h.label ++ " has neither object nor origin"
  | .hollowSave h => "saved tranlocal " ++ h.label ++ " has neither state nor origin"
  | .vanished h => h.label ++ " vanished after loading"
  | .unknownListened h => "listened object " ++ h.label ++ " is not in the heap"
  | .unknownTransaction id => "transaction " ++ toString id ++ " is not held"
  | .orderViolated before after => "order violated: " ++ before.label ++ " before " ++ after.label
  | .wrongHeight node cached measured =>
    "node " ++ node.label ++ " caches height " ++ toString cached ++ " but measures " ++
      toString measured
  | .outOfBalance node left right =>
    "node " ++ node.label ++ " out of balance: left " ++ toString left ++ " right " ++
      toString right
  | .wrongLength cached reachable =>
    "tree length " ++ toString cached ++ " but " ++ toString reachable ++ " nodes reachable"
  | .custom text => text

/-- Why a retry can never be woken. -/
inductive Stall where
  | noDependencies
  | nothingRead (id : TxnId)
  | custom (text : String)
  deriving DecidableEq, Repr

def Stall.message : Stall → String
  | .noDependencies => "no read dependencies to wait on"
  | .nothingRead id => "transaction " ++ toString id ++ " retried without reading anything"
  | .custom text => text

/-- What is wrong with a configuration or its text. -/
inductive ConfigFault where
  | idleBackoff (setting : String)
  | unreadable
  | unwritable
  | custom (text : String)
  deriving DecidableEq, Repr

def ConfigFault.message : ConfigFault → String
  | .idleBackoff setting => setting ++ ": max_spins must be positive"
  | .unreadable => "failed to parse STM config"
  | .unwritable => "failed to render STM config"
  | .custom text => text

inductive Error where
  | writeConflict (handle : Handle) (expected actual : Option Version)
  | locksUnavailable (handle : Handle) (owner : TxnId)
  | snapshotTooOld (requested oldest : Version)
  | loadUncommitted (handle : Handle)
  | deadTransaction (id : TxnId) (state : String)
  | noProgress (stall : Stall)
  | retry
  | wrongType (expected actual : String)
  | invalidOperation (misuse : Misuse)
  | serialization (fault : DecodeFault)
  | config (fault : ConfigFault)
  | internal (defect : Defect)
  deriving DecidableEq, Repr

namespace Error

/-- An optional version inside a message. -/
def optVersion : Option Version → String
  | none => "None"
  | some v => "Some(" ++ toString v ++ ")"

def message : Error → String
  | writeConflict h expected actual =>
    "write conflict on " ++ h.label ++ ": read at version " ++ optVersion expected ++ ", now at " ++
      optVersion actual
  | locksUnavailable h owner =>
    "failed to obtain commit locks: " ++ h.label ++ " is held by transaction " ++ toString owner
  | snapshotTooOld requested oldest =>
    "snapshot too old: requested version " ++ toString requested ++ ", oldest retained " ++
      toString oldest
  | loadUncommitted h => "load of uncommitted object " ++ h.label
  | deadTransaction id state => "transaction " ++ toString id ++ " is " ++ state
  | noProgress stall => "no progress possible: " ++ stall.message
  | retry => "retry requested"
  | wrongType expected actual => "wrong type: expected " ++ expected ++ ", got " ++ actual
  | invalidOperation misuse => "invalid operation: " ++ misuse.message
  | serialization fault => "serialization error: " ++ fault.message
  | config fault => "configuration error: " ++ fault.message
  | internal defect => "internal error: " ++ defect.message

/-- A commit that failed so may succeed when its transaction runs again. -/
def isRetryable : Error → Bool
  | writeConflict .. | locksUnavailable .. => true
  | _ => false

def isConflict : Error → Bool
  | writeConflict .. => true
  | _ => false

def isRetry : Error → Bool
  | retry => true
  | _ => false

/-- Only a broken promise of the engine is serious. -/
def isSerious : Error → Bool
  | internal _ => true
  | _ => false

end Error

/-- Go on only where the condition holds; otherwise ask to be run again later. -/
def guardOrRetry (condition : Bool) : Except Error Unit :=
  if condition then .ok () else .error .retry

/-- The value, or a request to be run again later. -/
def valueOrRetry {α : Type} : Option α → Except Error α
  | some a => .ok a
  | none => .error .retry

/-- An operation on a state of type `σ`: what it changed stays changed also where it fails. -/
abbrev Step (σ α : Type) := EStateM Error σ α

namespace Step

variable {σ α : Type}

/-- The result of a step, with the state it leaves. -/
def result (step : Step σ α) (s : σ) : Except Error α × σ :=
  match step.run s with
  | .ok a s => (.ok a, s)
  | .error e s => (.error e, s)

def ofExcept : Except Error α → Step σ α
  | .ok a => pure a
  | .error e => throw e

end Step

end TransactionalHeap
