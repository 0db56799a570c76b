import TransactionalHeap.Config.Format
import TransactionalHeap.Toml.Flat
import TransactionalHeap.Toml.Statement

/-!
# The texts of configurations

A library for configurations: it writes flat documents and reads every document. A table gives a
setting its kind and what the kind needs, where keys that the kind does not use are passed over; so
does a list of the kind's name and what the kind needs.
-/

namespace TransactionalHeap

open Toml (Struct Library)

namespace Config

def natBelow? (bound : Nat) : Toml → Option Nat
  | .int n => if 0 ≤ n ∧ n < bound then some n.toNat else none
  | _ => none

def word? (t : Toml) : Option UInt32 := (natBelow? UInt32.size t).map UInt32.ofNat

def version? (t : Toml) : Option Version := (natBelow? UInt64.size t).map UInt64.ofNat

/-- A kind with what was given for it, by name or in order. -/
inductive Choice where
  | named (kind : String) (entries : Toml.Entries)
  | listed (kind : String) (items : List Toml)
  deriving Repr

namespace Choice

def ofToml? : Toml → Option Choice
  | .table _ entries =>
    match Toml.valueOf? entries "kind" with
    | some (.string kind) => some (named kind entries)
    | _ => none
  | .array (.string kind :: items) => some (listed kind items)
  | _ => none

def kind : Choice → String
  | named kind _ | listed kind _ => kind

/-- A kind that needs nothing. -/
def isBare : Choice → Bool
  | named .. => true
  | listed _ items => items.isEmpty

/-- The one thing that a kind needs. -/
def word? (field : String) : Choice → Option UInt32
  | named _ entries => Toml.valueOf? entries field >>= Config.word?
  | listed _ [item] => Config.word? item
  | listed _ _ => none

end Choice

def lockPolicy? (t : Toml) : Option LockPolicy := do
  let choice ← Choice.ofToml? t
  if choice.kind = "fail_fast" then
    if choice.isBare then some .failFast else none
  else if choice.kind = "spin" then (choice.word? "attempts").map .spin
  else none

def backoff? (t : Toml) : Option Backoff := do
  let choice ← Choice.ofToml? t
  if choice.kind = "none" then
    if choice.isBare then some .none else none
  else if choice.kind = "exponential" then (choice.word? "max_spins").map .exponential
  else none

/-- What the value under a key is read as, or the standard without the key. -/
def given? {α : Type} (entries : Toml.Entries) (key : String) (standard : α)
    (read : Toml → Option α) : Option α :=
  match Toml.valueOf? entries key with
  | none => some standard
  | some value => read value

def isKey (key : String) : Bool :=
  ((Struct.fields (Struct.standard : Config)).map Prod.fst).contains key

def ofEntries? (entries : Toml.Entries) : Option Config := do
  let standard : Config := Struct.standard
  guard (entries.all fun e => isKey e.1)
  return {
    initialVersion := ← given? entries "initial_version" standard.initialVersion version?
    maxConflictRetries := ← given? entries "max_conflict_retries" standard.maxConflictRetries
      fun value => (word? value).map some
    lockPolicy := ← given? entries "lock_policy" standard.lockPolicy lockPolicy?
    commitBackoff := ← given? entries "commit_backoff" standard.commitBackoff backoff?
    conflictBackoff := ← given? entries "conflict_backoff" standard.conflictBackoff backoff? }

instance library : Library Config where
  write c := Toml.write? (Struct.fields c)
  table := Toml.ofText?
  read text := Toml.ofText? text >>= ofEntries?

end Config

end TransactionalHeap
