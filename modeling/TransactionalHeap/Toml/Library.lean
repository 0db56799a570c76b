import TransactionalHeap.Toml

/-!
# Libraries for TOML texts

A record gets its text from a library, and is made again from a text by it. The library is told the
fields of the record one by one, and one record that stands in for the fields that a text leaves
out. `Lawful` is what the users of a library rely on: the laws say which table a record is written
to and which tables are read as it, and leave the text itself to the library.
-/

namespace TransactionalHeap.Toml

/-- What the field of a record holds. -/
inductive Field where
  | number (n : Nat)
  /-- An option that is not set. -/
  | absent
  /-- One of several kinds, named under a tag, with the numbers that this kind has. -/
  | tagged (tag kind : String) (numbers : List (String × Nat))
  deriving DecidableEq, Repr

abbrev Fields := List (String × Field)

def Field.fits : Field → Bool
  | .number n => Toml.fits n
  | .absent => true
  | .tagged _ _ numbers => numbers.all fun e => Toml.fits e.2

/-- How a record is told to a library. -/
class Struct (σ : Type) where
  fields : σ → Fields
  /-- The record with the fields that a text leaves out. -/
  standard : σ

class Library (σ : Type) where
  /-- The text of a record, if it has one. -/
  write : σ → Option String
  /-- The table that a text holds, if it holds one. -/
  table : String → Option Entries
  /-- The record of a text, if its table is one of a record. -/
  read : String → Option σ

/-! ## Tables of records -/

/-- A value stands for what a field holds; none does for an option that is not set. A kind is a table
with its name under the tag. -/
def Shows : Toml → Field → Prop
  | int m, .number n => m = n
  | table _ entries, .tagged tag kind numbers =>
    valueOf? entries tag = some (string kind) ∧
      ∀ e ∈ numbers, valueOf? entries e.1 = some (int e.2)
  | _, _ => False

/-- A record is written to this table. -/
structure Renders (fields : Fields) (entries : Entries) : Prop where
  known : ∀ e ∈ entries, e.1 ∈ fields.map Prod.fst
  omitted : ∀ key, (key, .absent) ∈ fields → valueOf? entries key = none
  shown : ∀ f ∈ fields, f.2 ≠ .absent → ∃ v, valueOf? entries f.1 = some v ∧ v.Shows f.2

/-- A record can be read from this table, where others are the fields of the standard record. -/
structure Provides (fields standard : Fields) (entries : Entries) : Prop where
  known : ∀ e ∈ entries, e.1 ∈ fields.map Prod.fst
  field : ∀ f ∈ fields, (∃ v, valueOf? entries f.1 = some v ∧ v.Shows f.2) ∨
    valueOf? entries f.1 = none ∧ f ∈ standard

/-! ## Laws -/

open Struct Library

/-- What holds of a library for the records of one type. -/
structure Lawful (σ : Type) [Struct σ] [Library σ] : Prop where
  /-- Integers are signed and have 64 bits: a record whose numbers are others has no text. -/
  writes_iff : ∀ s : σ, (∃ text, write s = some text) ↔ ∀ f ∈ fields s, f.2.fits = true
  /-- So are those of every text. -/
  holds_fitting : ∀ text entries, Library.table σ text = some entries →
    ∀ key n, valueOf? entries key = some (int n) → Toml.fits n = true
  /-- A field goes under its name, a kind to a table with its tag, and an absent option nowhere. -/
  written : ∀ (s : σ) text, write s = some text →
    ∃ entries, Library.table σ text = some entries ∧ Renders (fields s) entries
  /-- A table of known keys is read as the record whose fields it shows, where a field without a key
  is that of the standard record. -/
  reads : ∀ (s : σ) text entries, Library.table σ text = some entries →
    Provides (fields s) (fields (standard : σ)) entries → read text = some s
  /-- The number in a field comes from the text or from the standard record. -/
  read_number : ∀ (s : σ) text, read text = some s →
    ∃ entries, Library.table σ text = some entries ∧
      ∀ key (n : Nat), (key, .number n) ∈ fields s →
        valueOf? entries key = some (int n) ∨ (key, .number n) ∈ fields (standard : σ)

end TransactionalHeap.Toml
