/-!
# TOML values

A value of a TOML document. Tables remember how they came about, since that decides what may still
be added to them: a table with braces is complete, one with a header may be defined only once, one
that a longer header implied may still get its own header, and one made by a dotted key grows by
dotted keys only. Floats, booleans and dates keep no more than that they are there.
-/

namespace TransactionalHeap

/-- How a table came about. -/
inductive TableOrigin where
  | braces | header | implied | dotted
  deriving DecidableEq, Repr, Inhabited

inductive Toml where
  | string (text : String)
  | int (n : Int)
  | other
  | array (items : List Toml)
  | table (origin : TableOrigin) (entries : List (String × Toml))
  /-- One table for each header in double brackets, the newest last. -/
  | tables (items : List (List (String × Toml)))
  deriving Repr, Inhabited

namespace Toml

/-- Integers are signed and have 64 bits. -/
def fits (n : Int) : Bool := Int64.minValue.toInt ≤ n ∧ n ≤ Int64.maxValue.toInt

/-- The keys of a table with their values, in the order of the text. -/
abbrev Entries := List (String × Toml)

def valueOf? (entries : Entries) (key : String) : Option Toml := entries.lookup key

/-- Put another value under a key that is there. -/
def replace (entries : Entries) (key : String) (value : Toml) : Entries :=
  entries.map fun e => if e.1 = key then (key, value) else e

/-! ## Growing a document -/

/-- Change the table that a path leads to, making tables on the way. A dotted path stays out of
tables that have a header of their own. No path leads into braces or to a value. -/
def within (dotted : Bool) (change : TableOrigin → Entries → Option Entries) :
    List String → TableOrigin → Entries → Option Entries
  | [], origin, entries => change origin entries
  | key :: path, _, entries =>
    match valueOf? entries key with
    | none => do
      let origin := if dotted then TableOrigin.dotted else .implied
      return entries ++ [(key, table origin (← within dotted change path origin []))]
    | some (table origin inner) =>
      if origin = .braces ∨ (dotted ∧ origin = .header) then none
      else do
        return replace entries key (table origin (← within dotted change path origin inner))
    | some (tables items) => do
      let inner ← within dotted change path .header (items.getLast?.getD [])
      return replace entries key (tables (items.dropLast ++ [inner]))
    | some _ => none

/-- Add a new key. A dotted key goes into a table made by dotted keys, a plain one into any
other. -/
def define (key : String) (value : Toml) (plain : Bool) (origin : TableOrigin)
    (entries : Entries) : Option Entries :=
  if (origin = .dotted) = plain then none
  else if (valueOf? entries key).isSome then none
  else some (entries ++ [(key, value)])

/-- Give a table its header. -/
def openTable (key : String) (_ : TableOrigin) (entries : Entries) : Option Entries :=
  match valueOf? entries key with
  | none => some (entries ++ [(key, table .header [])])
  | some (table .implied inner) => some (replace entries key (table .header inner))
  | some _ => none

/-- Start another table of an array of tables. -/
def openElement (key : String) (_ : TableOrigin) (entries : Entries) : Option Entries :=
  match valueOf? entries key with
  | none => some (entries ++ [(key, tables [[]])])
  | some (tables items) => some (replace entries key (tables (items ++ [[]])))
  | some _ => none

/-- Assign to a key, dotted or plain, in a table whose origin is given. -/
def assign (path : List String) (value : Toml) (origin : TableOrigin) (entries : Entries) :
    Option Entries :=
  match path.getLast? with
  | none => none
  | some key =>
    within true (define key value (path.length = 1)) path.dropLast origin entries

end Toml

end TransactionalHeap
