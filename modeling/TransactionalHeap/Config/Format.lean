import TransactionalHeap.Config
import TransactionalHeap.Toml.Library

/-!
# Configurations as texts

A configuration is written and read by a TOML library, which is told its settings. Every setting may
be left out of a text; a setting that has kinds is named by its kind. What has been read is checked
before it is used.
-/

namespace TransactionalHeap

open Toml (Field Struct Library)

def LockPolicy.field : LockPolicy → Field
  | .failFast => .tagged "kind" "fail_fast" []
  | .spin attempts => .tagged "kind" "spin" [("attempts", attempts.toNat)]

def Backoff.field : Backoff → Field
  | .none => .tagged "kind" "none" []
  | .exponential maxSpins => .tagged "kind" "exponential" [("max_spins", maxSpins.toNat)]

namespace Config

def retriesField : Option UInt32 → Field
  | none => .absent
  | some n => .number n.toNat

instance : Struct Config where
  fields c := [
    ("initial_version", .number c.initialVersion.toNat),
    ("max_conflict_retries", retriesField c.maxConflictRetries),
    ("lock_policy", c.lockPolicy.field),
    ("commit_backoff", c.commitBackoff.field),
    ("conflict_backoff", c.conflictBackoff.field)]
  standard := {}

variable [Library Config]

/-- Read a configuration and check it. -/
def ofText (text : String) : Except Error Config :=
  match Library.read text with
  | none => .error (.config .unreadable)
  | some (c : Config) => do
    c.validate
    return c

def toText (c : Config) : Except Error String :=
  match Library.write c with
  | none => .error (.config .unwritable)
  | some text => .ok text

end Config

end TransactionalHeap
