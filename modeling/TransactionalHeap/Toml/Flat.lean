import TransactionalHeap.Toml.Library
import TransactionalHeap.Text.Digits

/-!
# Flat documents

A flat document assigns numbers and names to keys, first at the top and then in tables under
headers. The fields of a record are written so: numbers at the top, and a table for every kind.
-/

namespace TransactionalHeap.Toml

/-- A line of the text. -/
def line (content : List Char) : List Char := content ++ ['\n']

/-- What a line of a flat document assigns. -/
inductive Plain where
  | number (n : Nat)
  | name (text : String)

namespace Plain

def text : Plain → List Char
  | number n => Text.digits n
  | name text => '"' :: text.toList ++ ['"']

/-- The line that assigns to a key. -/
def assigned (key : String) (v : Plain) : List Char :=
  line (key.toList ++ [' ', '=', ' '] ++ v.text)

end Plain

/-- Keys with what is assigned to them. -/
abbrev Settings := List (String × Plain)

def Settings.text (settings : Settings) : List Char := settings.flatMap fun e => e.2.assigned e.1

/-- The settings of a table, after an empty line and the header. -/
def tableText (name : String) (settings : Settings) : List Char :=
  line [] ++ line ('[' :: name.toList ++ [']']) ++ settings.text

/-- Settings at the top, and settings under headers. -/
structure Flat where
  top : Settings
  tables : List (String × Settings)

namespace Flat

def text (d : Flat) : List Char := d.top.text ++ d.tables.flatMap fun t => tableText t.1 t.2

/-- What is written at the top for a field. -/
def number? : String × Field → Option (String × Plain)
  | (key, .number n) => some (key, .number n)
  | _ => none

/-- The table that is written for a field. -/
def table? : String × Field → Option (String × Settings)
  | (key, .tagged tag kind numbers) =>
    some (key, (tag, .name kind) :: numbers.map fun e => (e.1, .number e.2))
  | _ => none

def ofFields (fields : Fields) : Flat where
  top := fields.filterMap number?
  tables := fields.filterMap table?

end Flat

/-- The text of a record, unless one of its numbers is no integer of a document. -/
def write? (fields : Fields) : Option String :=
  if fields.all fun f => f.2.fits then some (String.ofList (Flat.ofFields fields).text) else none

end TransactionalHeap.Toml
