import TransactionalHeap.Inspection.Engine
import TransactionalHeap.Program
import TransactionalHeap.Script

/-!
# Running scripts

A command becomes a program over the engine, and so does an instruction for a given transaction.
While an instruction runs, its slot is empty. Inside a body or a branch, instructions run until one
fails, and their replies are logged in the order in which they end.

Wakers belong to the transaction of the call that they are given with. Its retries use them up in
order, those in its body as well as those after a run, except a retry that has wakers of its own.
Commands inside a call are about other transactions and have none of its wakers.
-/

namespace TransactionalHeap

/-- What a script keeps beside the engine. -/
structure ScriptState where
  /-- The transactions at hand, by slot. -/
  slots : SortedMap Nat TxnId := ∅
  /-- The replies of the body or branch that runs. -/
  log : List Reply := []
  /-- The logs of the runs of the atomic call that runs. -/
  runs : List (List Reply) := []
  /-- What the wakers at hand gave that are used up. -/
  woken : List (List Reply) := []
  /-- What the commands between the halves of the commit that runs gave. -/
  between : List Reply := []
  /-- Without an observer nobody is told of a retry, so no commands run then. -/
  observed : Bool := true

abbrev ScriptProgram (α : Type) := Program ScriptState α

namespace ScriptProgram

open Program

def state : ScriptProgram ScriptState := return (← get).env

def change (f : ScriptState → ScriptState) : ScriptProgram Unit :=
  modify fun w => { w with env := f w.env }

/-! ## Keeping logs -/

def note (r : Reply) : ScriptProgram Unit := change fun s => { s with log := s.log ++ [r] }

/-- Run a program with a log of its own. Gives that log. -/
def logged {α : Type} (program : ScriptProgram α) :
    ScriptProgram (Except Error α × List Reply) := do
  let outer := (← state).log
  change fun s => { s with log := [] }
  let result ← attempt program
  let inner := (← state).log
  change fun s => { s with log := outer }
  return (result, inner)

/-- Run a program that has wakers. Gives what they gave. -/
def withWakers {α : Type} (program : ScriptProgram α) : ScriptProgram (α × List (List Reply)) := do
  let outer := (← state).woken
  change fun s => { s with woken := [] }
  let a ← program
  let inner := (← state).woken
  change fun s => { s with woken := outer }
  return (a, inner)

/-- Run commands between the halves of a commit, and keep their replies. -/
def asBetween (commands : ScriptProgram (List Reply)) : ScriptProgram Unit := do
  let replies ← commands
  change fun s => { s with between := replies }

/-- Run a commit. Gives what the commands between its halves gave. -/
def withBetween {α : Type} (program : ScriptProgram α) : ScriptProgram (α × List Reply) := do
  let outer := (← state).between
  change fun s => { s with between := [] }
  let a ← program
  let inner := (← state).between
  change fun s => { s with between := outer }
  return (a, inner)

/-- Run the body of an atomic call, and keep its log as a run. -/
def asRun (program : ScriptProgram Answer) : ScriptProgram Answer := do
  let (result, log) ← logged program
  change fun s => { s with runs := s.runs ++ [log] }
  ofExcept result

/-- Run an atomic call with runs of its own. Gives these. -/
def withRuns {α : Type} (program : ScriptProgram α) : ScriptProgram (α × List (List Reply)) := do
  let outer := (← state).runs
  change fun s => { s with runs := [] }
  let a ← program
  let inner := (← state).runs
  change fun s => { s with runs := outer }
  return (a, inner)

/-! ## Waiting -/

/-- Commands that run while a transaction waits. -/
abbrev Waker := ScriptProgram (List Reply)

/-- Use up the next waker, if there is one. -/
def wakeWith (wakers : List Waker) : ScriptProgram Unit := do
  if let some commands := wakers[(← state).woken.length]? then
    let replies ← commands
    change fun s => { s with woken := s.woken ++ [replies] }

/-- Wait, and use up a waker once the latch is filed. -/
def wait (wakers : List Waker) (id : TxnId) : ScriptProgram Unit := do
  if (← state).observed then retryWith id (wakeWith wakers)
  else
    ensureWakeable id
    retryWith id (pure ())

/-! ## Slots -/

/-- Put a transaction into a slot and let go of the one that is there. -/
def occupy (slot : Nat) (id : TxnId) : ScriptProgram Unit := do
  if let some old := (← state).slots.find? slot then
    lift (Engine.drop old)
  change fun s => { s with slots := s.slots.insert slot id }

def vacate (slot : Nat) : ScriptProgram Unit :=
  change fun s => { s with slots := s.slots.erase slot }

/-- A new transaction for a slot. Gives the number of live ones. -/
def beginIn (slot : Nat) (start : Step Engine TxnId) : ScriptProgram Answer := do
  occupy slot (← lift start)
  return .count (← get).engine.store.liveness.total

/-- Let go of the transaction in a slot. -/
def dropFrom (slot : Nat) : ScriptProgram Answer := do
  match (← state).slots.find? slot with
  | none => return .flag false
  | some id =>
    vacate slot
    lift (Engine.drop id)
    return .flag true

/-- Run an instruction on the transaction of a slot, which is empty meanwhile. -/
def onSlot (slot : Nat) (instruction : TxnId → ScriptProgram Reply) : ScriptProgram Reply := do
  match (← state).slots.find? slot with
  | none => return .vacant
  | some id =>
    vacate slot
    let (reply, log) ← cleanup (lift (Engine.drop id)) (logged (instruction id))
    let view := (← lift (Engine.transaction id)).view
    occupy slot id
    match reply with
    | .ok (.done result traces) =>
      let inner := if log.isEmpty then [] else [Trace.log log]
      return .done result (inner ++ .transaction view :: traces)
    | .ok reply => return reply
    | .error e => return .done (.error e) [.transaction view]

/-! ## Instructions without parts -/

def attach (id : TxnId) (type : ObjectType) (fields : Fields) : ScriptProgram Answer := do
  let o ← ofExcept (type.build fields)
  return .handle (← lift (Engine.attach id o))

def attachTo (id : TxnId) (h : Handle) (type : ObjectType) (fields : Fields) :
    ScriptProgram Answer := do
  let o ← ofExcept (type.build fields)
  lift (Engine.on id (Transaction.attachTo h o))
  return .nothing

/-- The object that a change makes of another. -/
def changed (type : ObjectType) (change : Change) (o : Object) : Except Error Object :=
  match change with
  | .keep => .ok o
  | .set fields => type.build fields
  | .add index amount =>
    let fields := o.dematerialize
    match fields[index]? >>= Value.asInt? with
    | none => .ok o
    | some n => type.build (fields.set index (.int (n + amount)))

def write (id : TxnId) (h : Handle) (type : ObjectType) (change : Change) :
    ScriptProgram Answer := do
  let o ← lift (Engine.on id (Transaction.update type h (changed type change)))
  return .fields o.dematerialize

def readFields (id : TxnId) (h : Handle) (type : ObjectType) : ScriptProgram Fields := do
  return (← lift (Engine.on id (Transaction.read type h))).dematerialize

def load (id : TxnId) (h : Handle) (type : ObjectType) (policy : ReadPolicy) (get : Bool) :
    ScriptProgram Answer := do
  let loaded ← lift (Engine.on id (Transaction.load type h policy))
  let isMaterialized := (← lift (Engine.transaction id)).isMaterialized h
  let mut got := none
  if get then
    let o ← attempt (lift (Engine.on id loaded.get))
    got := some (o.map Object.dematerialize)
  return .loaded { loaded, isMaterialized, got }

def guard (id : TxnId) (h : Handle) (type : ObjectType) (index : Nat) (least : Int64) :
    ScriptProgram Answer := do
  let fields ← readFields id h type
  let n := (fields[index]? >>= Value.asInt?).getD 0
  ofExcept (guardOrRetry (least ≤ n))
  return .int n

def next (id : TxnId) (h : Handle) : ScriptProgram Answer := do
  match ← lift (Engine.on id (Transaction.read .node h)) with
  | .node _ next => return .handle (← ofExcept (valueOrRetry next))
  | o => fail (.wrongType ObjectType.node.name o.type.name)

/-- Commit both halves at once. -/
def commit (id : TxnId) : ScriptProgram Answer := return .version (← lift (Engine.commit id))

/-- The result of a program as a reply. -/
def reply (program : ScriptProgram Answer) : ScriptProgram Reply := do
  return .done (← attempt program) []

/-! ## Atomic calls -/

/-- An atomic call that begins its 62nd run counts as one that waits for ever. -/
def maxRuns : Nat := 61

/-- The body of the n-th run. -/
def bodyOf (bodies : List (TxnId → ScriptProgram Answer)) (n : Nat) :
    TxnId → ScriptProgram Answer :=
  (bodies[min n (bodies.length - 1)]?).getD fun _ => pure .nothing

def callOf (bodies : List (TxnId → ScriptProgram Answer)) (wakers : List Waker) :
    Atomic ScriptState Answer where
  body n id := asRun (bodyOf bodies n id)
  wait := wait wakers

/-- An atomic call: its result and its runs. -/
def atomicCall (bodies : List (TxnId → ScriptProgram Answer)) (wakers : List Waker) :
    ScriptProgram (Except Error Answer × List (List Reply)) :=
  withRuns (attempt (atomically (callOf bodies wakers) maxRuns))

end ScriptProgram

/-! ## Instructions and commands -/

/-- Failures of a caught instruction end nothing. -/
def Instruction.isCaught : Instruction → Bool
  | caught _ => true
  | _ => false

open Program ScriptProgram

mutual

/-- An instruction as a program for a transaction that has the wakers. -/
def Instruction.run : Instruction → List Waker → TxnId → ScriptProgram Reply
  | .attach type fields, _, id => reply (ScriptProgram.attach id type fields)
  | .attachTo h type fields, _, id => reply (ScriptProgram.attachTo id h type fields)
  | .read h type, _, id => reply do return .fields (← readFields id h type)
  | .write h type change, _, id => reply (ScriptProgram.write id h type change)
  | .load h type policy get, _, id => reply (ScriptProgram.load id h type policy get)
  | .status h, _, id => reply do
    let t ← lift (Engine.transaction id)
    return .status (t.statusOf h) (t.isMaterialized h)
  | .commit, _, id => reply (ScriptProgram.commit id)
  | .commitDuring commands, _, id => do
    let between := asBetween (runCommands commands)
    let (result, replies) ← withBetween (attempt (commitWith id between))
    return .done (result.map .version) [.during replies]
  | .abort, _, id => reply do
    lift (Engine.abort id)
    return .nothing
  | .abortAndRetry, ws, id => reply do
    wait ws id
    return .nothing
  | .abortAndRetryAmong wakers, _, id => do
    let (result, woken) ← withWakers (attempt (wait (wakersOf wakers) id))
    return .done (result.map fun _ => .nothing) [.wakers woken]
  | .startOr, _, id => reply do
    lift (Engine.on id Transaction.startOr)
    return .nothing
  | .endOr, _, id => reply do
    lift (Engine.on id Transaction.endOr)
    return .nothing
  | .endOrElse, _, id => reply do
    lift (Engine.on id Transaction.endOrElse)
    return .nothing
  | .orElse first second, ws, id => reply <|
    orElse id
      (do return .branch .first (← runBody first .nothing ws id))
      (do return .branch .second (← runBody second .nothing ws id))
  | .retry, _, _ => reply (Program.fail .retry)
  | .guard h type index least, _, id => reply (ScriptProgram.guard id h type index least)
  | .next h, _, id => reply (ScriptProgram.next id h)
  | .fail e, _, _ => reply (Program.fail e)
  | .top commands, _, _ => reply do return .replies (← runCommands commands)
  | .state, _, id => reply do return .view (← lift (Engine.transaction id)).view
  | .inspect, _, id => reply do return .text (← lift (Engine.transaction id)).shown.text
  | .caught i, ws, id => i.run ws id

/-- Instructions until one fails. The value is that of the last one that did not. -/
def runBody : List Instruction → Answer → List Waker → TxnId → ScriptProgram Answer
  | [], last, _, _ => pure last
  | i :: rest, last, ws, id => do
    let r ← i.run ws id
    note r
    match r with
    | .done (.ok a) _ => runBody rest a ws id
    | .done (.error e) _ => if i.isCaught then runBody rest last ws id else Program.fail e
    | .vacant | .blocked => runBody rest last ws id

def runBodies : List (List Instruction) → List Waker → List (TxnId → ScriptProgram Answer)
  | [], _ => []
  | body :: rest, ws => runBody body .nothing ws :: runBodies rest ws

/-- A command as a program. -/
def Command.run : Command → ScriptProgram Reply
  | .begin slot => reply (beginIn slot Engine.begin)
  | .beginAt slot version => reply (beginIn slot (Engine.beginAt version))
  | .drop slot => reply (dropFrom slot)
  | .readAt h type version => reply do
    let o ← ofExcept ((← get).engine.store.readAt type h version)
    return .found (o.map Object.dematerialize)
  | .recordAt h version => reply do
    return .record (← ofExcept ((← get).engine.store.heap.readAt h version))
  | .lockHolder h => reply do return .holder ((← get).engine.store.locks.holderOf h)
  | .info => reply do return .info (← get).engine.info
  | .atomically bodies => do
    let (result, runs) ← atomicCall (runBodies bodies []) []
    return .done result [.runs runs]
  | .atomicallyAmong bodies wakers => do
    let ws := wakersOf wakers
    let ((result, runs), woken) ← withWakers (atomicCall (runBodies bodies ws) ws)
    return .done result [.runs runs, .wakers woken]
  | .on slot i => onSlot slot (i.run [])

def runCommands : List Command → ScriptProgram (List Reply)
  | [] => pure []
  | c :: rest => do
    let r ← c.run
    return r :: (← runCommands rest)

def wakersOf : List (List Command) → List Waker
  | [] => []
  | commands :: rest => runCommands commands :: wakersOf rest

end

/-! ## Whole scripts -/

/-- A script that has ended: its replies, and the engine with the slots that it leaves. -/
structure ScriptResult where
  replies : List Reply
  engine : Engine
  slots : SortedMap Nat TxnId

/-- Run commands until one gets stuck. -/
def runScriptFrom : List Command → World ScriptState → List Reply × World ScriptState
  | [], w => ([], w)
  | c :: rest, w =>
    match c.run w with
    | .ok r w => ((r :: (runScriptFrom rest w).1), (runScriptFrom rest w).2)
    | .error .stuck w => ([.blocked], w)
    | .error (.failed e) w =>
      (.done (.error e) [] :: (runScriptFrom rest w).1, (runScriptFrom rest w).2)

/-- Run a script on a new engine. -/
def runScript (config : Config) (observed : Bool) (commands : List Command) : ScriptResult :=
  let (replies, w) := runScriptFrom commands ⟨.ofConfig config, { observed }⟩
  { replies, engine := w.engine, slots := w.env.slots }

/-- The engine after everything in the slots is let go of. -/
def ScriptResult.released (r : ScriptResult) : Engine :=
  let drop (e : Engine) (id : TxnId) : Engine :=
    match Engine.drop id e with
    | .ok _ e | .error _ e => e
  r.slots.values.foldl drop r.engine

end TransactionalHeap
