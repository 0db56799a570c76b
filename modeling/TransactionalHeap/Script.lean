import TransactionalHeap.Engine
import TransactionalHeap.Object.Stock

/-!
# Scripts

A script is a fixed schedule of transactions: commands for the engine, and instructions for one
transaction each, which a command addresses by a numbered slot. Commands may stand at the points
inside a commit, a retry or an atomic call where others get in between, so one thread can play out
any interleaving that matters.

Every command has a reply. A script whose transaction would wait for ever stops there.
-/

namespace TransactionalHeap

/-! ## What is done -/

/-- What happens to an object that was opened for a change. -/
inductive Change where
  | keep
  | set (fields : Fields)
  /-- Add to one integer field, with 64-bit wrapping. Any other field stays as it is. -/
  | add (index : Nat) (amount : Int64)
  deriving Repr, Inhabited

mutual

/-- What is done to the transaction at hand. -/
inductive Instruction where
  | attach (type : ObjectType) (fields : Fields)
  | attachTo (h : Handle) (type : ObjectType) (fields : Fields)
  | read (h : Handle) (type : ObjectType)
  | write (h : Handle) (type : ObjectType) (change : Change)
  /-- Load, look whether the object is rebuilt now, and get it if asked to. -/
  | load (h : Handle) (type : ObjectType) (policy : ReadPolicy) (get : Bool)
  | status (h : Handle)
  | commit
  /-- Commit, with commands between its halves. -/
  | commitDuring (commands : List Command)
  | abort
  | abortAndRetry
  /-- Retry, with commands while the latch is filed. The first list is used. -/
  | abortAndRetryAmong (wakers : List (List Command))
  | startOr
  | endOr
  | endOrElse
  | orElse (first second : List Instruction)
  | retry
  /-- Ask for a retry unless an integer field is large enough. -/
  | guard (h : Handle) (type : ObjectType) (index : Nat) (least : Int64)
  /-- Follow the reference of a node, or ask for a retry. -/
  | next (h : Handle)
  | fail (e : Error)
  | top (commands : List Command)
  | state
  | inspect
  /-- Go on also where the instruction fails. -/
  | caught (i : Instruction)

/-- What is done to the engine. -/
inductive Command where
  | begin (slot : Nat)
  | beginAt (slot : Nat) (version : Version)
  | drop (slot : Nat)
  | readAt (h : Handle) (type : ObjectType) (version : Version)
  | recordAt (h : Handle) (version : Version)
  | lockHolder (h : Handle)
  | info
  /-- An atomic call. The n-th run has the n-th body, and the last one from there on. -/
  | atomically (bodies : List (List Instruction))
  /-- An atomic call, with commands at its n-th wait, be it inside the body or after a run. -/
  | atomicallyAmong (bodies : List (List Instruction)) (wakers : List (List Command))
  | on (slot : Nat) (i : Instruction)

end

instance : Inhabited Instruction := ⟨.state⟩

instance : Inhabited Command := ⟨.info⟩

/-! ## What comes back -/

/-- A transaction as seen from outside. -/
structure TransactionView where
  id : TxnId
  status : TransactionStatus
  start : Version
  version : Option Version
  reads : List Handle
  writes : Nat
  depth : Nat
  deriving DecidableEq, Repr

/-- The counters of an engine. -/
structure EngineInfo where
  version : Version
  oldestLive : Option Version
  live : Nat
  listened : Nat
  buckets : Nat
  statistics : Statistics
  casFailures : Nat
  deriving DecidableEq, Repr

/-- A load, whether the object was rebuilt right after it, and what getting it gave. -/
structure LoadReport where
  loaded : Loaded
  isMaterialized : Bool
  got : Option (Except Error Fields)

inductive OrElseBranch where
  | first | second
  deriving DecidableEq, Repr

mutual

/-- The value of an instruction or a command. -/
inductive Answer where
  | nothing
  | flag (b : Bool)
  | count (n : Nat)
  | version (v : Version)
  | int (n : Int64)
  | handle (h : Handle)
  | holder (owner : Option TxnId)
  | text (s : String)
  | fields (fields : Fields)
  | found (fields : Option Fields)
  | record (r : Option Record)
  | info (info : EngineInfo)
  | status (s : Option EntryStatus) (isMaterialized : Bool)
  | loaded (report : LoadReport)
  | branch (b : OrElseBranch) (a : Answer)
  | view (v : TransactionView)
  | replies (rs : List Reply)

/-- What went on inside a command or an instruction. -/
inductive Trace where
  /-- The instructions inside it. -/
  | log (replies : List Reply)
  /-- The instructions of each run of its body. -/
  | runs (runs : List (List Reply))
  /-- The commands at each of its waits. -/
  | wakers (waits : List (List Reply))
  /-- The commands between the halves of its commit. -/
  | during (replies : List Reply)
  /-- Its transaction afterwards. -/
  | transaction (view : TransactionView)

inductive Reply where
  /-- The slot has no transaction, or its transaction is busy. -/
  | vacant
  /-- The script ends here. -/
  | blocked
  | done (result : Except Error Answer) (traces : List Trace)

end

instance : Inhabited Answer := ⟨.nothing⟩

instance : Inhabited Reply := ⟨.vacant⟩

def Transaction.view (t : Transaction) : TransactionView where
  id := t.id
  status := t.status
  start := t.startVersion
  version := t.commitVersion
  reads := t.readSet
  writes := t.writeCount
  depth := t.depth

def Engine.info (e : Engine) : EngineInfo where
  version := e.store.heap.version
  oldestLive := e.store.liveness.oldest
  live := e.store.liveness.total
  listened := e.store.listeners.groups.size
  buckets := e.store.listeners.bucketCount
  statistics := e.store.statistics
  casFailures := e.store.heap.casFailures

end TransactionalHeap
