import TransactionalHeap.Engine
import TransactionalHeap.Inspection

/-!
# Inspection of the engine

The inspection lines of a heap, an entry, a transaction, a configuration and what is built from one.
-/

namespace TransactionalHeap

variable [Transactables]

open Shown

def Backoff.shown : Backoff → Shown
  | .none => word "None"
  | .exponential maxSpins => parts "Exponential" [("max_spins", nat maxSpins.toNat)]

def LockPolicy.shown : LockPolicy → Shown
  | .failFast => word "FailFast"
  | .spin attempts => parts "Spin" [("attempts", nat attempts.toNat)]

def Heap.shown (h : Heap) : Shown :=
  parts "Heap" [("version", Shown.version h.version), ("oldest", Shown.version h.oldest),
    ("backoff", h.backoff.shown)]

def Config.shown (c : Config) : Shown :=
  parts "StmConfig" [("initial_version", Shown.version c.initialVersion),
    ("max_conflict_retries", option (fun n : UInt32 => nat n.toNat) c.maxConflictRetries),
    ("lock_policy", c.lockPolicy.shown), ("commit_backoff", c.commitBackoff.shown),
    ("conflict_backoff", c.conflictBackoff.shown)]

def EntryStatus.shown : EntryStatus → Shown
  | .fresh => word "Fresh"
  | .clean => word "Clean"
  | .dirty => word "Dirty"
  | .committed => word "Committed"
  | .conflict => word "Conflict"

def Entry.shown (e : Entry) : Shown :=
  parts "Tranlocal" [("handle", e.handle.shown), ("status", e.status.shown),
    ("materialized", Shown.bool e.isMaterialized),
    ("origin", option Shown.version (e.origin.map Record.version))]

def TransactionStatus.shown : TransactionStatus → Shown
  | .active => word "Active"
  | .committed v => parts "Committed" [("version", Shown.version v)]
  | .aborted reason => parts "Aborted" [("reason", quoted reason.message)]

def Transaction.shown (t : Transaction) : Shown :=
  parts "Transaction" [("id", nat t.id), ("status", t.status.shown),
    ("start_version", Shown.version t.startVersion), ("tranlocals", nat t.entries.size),
    ("or_else_depth", nat t.depth)]

/-- The store as the manager of its transactions. -/
def Store.shown (s : Store) : Shown :=
  parts "TransactionManager" [("heap", s.heap.shown), ("config", s.config.shown),
    ("next_txn_id", nat s.nextTransaction)]

def Engine.shown (e : Engine) : Shown :=
  parts "Stm" [("version", Shown.version e.store.heap.version),
    ("live_transactions", nat e.store.liveness.total)]

/-- A configuration still to be built, with an observer or without. -/
def Config.shownAsBuilder (c : Config) (observed : Bool) : Shown :=
  parts "StmBuilder" [("config", c.shown), ("observer", Shown.bool observed)]

end TransactionalHeap
