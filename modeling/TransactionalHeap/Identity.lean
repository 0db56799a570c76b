import TransactionalHeap.SortedMap

/-!
# Handles, versions and transaction numbers

A handle is the identity of one object through all its revisions. Versions are 64-bit words, and
their successor wraps at the end of the range. Transactions are numbered from one.
-/

namespace TransactionalHeap

/-- The identity of one object, ordered by its number. -/
structure Handle where
  id : Nat
  deriving DecidableEq, Repr, Inhabited

namespace Handle

instance : Ranked Handle := ⟨Handle.id, fun {a b} h => by cases a; cases b; cases h; rfl⟩

instance : LT Handle := ⟨fun a b => a.id < b.id⟩

instance : LE Handle := ⟨fun a b => a.id ≤ b.id⟩

instance (a b : Handle) : Decidable (a < b) := inferInstanceAs (Decidable (a.id < b.id))

instance (a b : Handle) : Decidable (a ≤ b) := inferInstanceAs (Decidable (a.id ≤ b.id))

instance : Ord Handle := ⟨fun a b => compare a.id b.id⟩

/-- A handle is shown as its number after a hash sign. -/
def label (h : Handle) : String := "#" ++ toString h.id

theorem lt_def {a b : Handle} : a < b ↔ a.id < b.id := Iff.rfl

@[simp] theorem rank_eq (h : Handle) : rank h = h.id := rfl

/-- Ascending and without repeats, as locks are taken. -/
def sortDistinct (handles : List Handle) : List Handle :=
  (handles.foldl (fun m h => m.insert h ()) (∅ : SortedMap Handle Unit)).keys

end Handle

/-- The number of a heap state. -/
abbrev Version := UInt64

namespace Version

/-- The version after `v`; the last word is followed by zero. -/
def next (v : Version) : Version := v + 1

end Version

/-- The number of a transaction, also used to name the holder of a lock. -/
abbrev TxnId := Nat

end TransactionalHeap
