import TransactionalHeap.Decimal.Shortest
import TransactionalHeap.Record
import TransactionalHeap.Text.Quoted

/-!
# Inspection of values and records

One line of text for a developer to look at: names of things with their parts in parentheses or
braces. Nothing reads these texts back.
-/

namespace TransactionalHeap

variable [Transactables]

/-- What an inspection line is made of. -/
inductive Shown where
  | word (text : String)
  | wrapped (name : String) (item : Shown)
  | list (items : List Shown)
  | parts (name : String) (fields : List (String × Shown))
  deriving Inhabited

namespace Shown

mutual

def text : Shown → String
  | word text => text
  | wrapped name item => name ++ "(" ++ item.text ++ ")"
  | list items => "[" ++ ", ".intercalate (texts items) ++ "]"
  | parts name fields => name ++ " \x7b " ++ ", ".intercalate (fieldTexts fields) ++ " \x7d"

def texts : List Shown → List String
  | [] => []
  | item :: rest => item.text :: texts rest

def fieldTexts : List (String × Shown) → List String
  | [] => []
  | (name, item) :: rest => (name ++ ": " ++ item.text) :: fieldTexts rest

end

def nat (n : Nat) : Shown := word (toString n)

def version (v : Version) : Shown := word (toString v)

def bool (b : Bool) : Shown := word (if b then "true" else "false")

def quoted (text : String) : Shown := word (Text.quote text)

def option {α : Type} (item : α → Shown) : Option α → Shown
  | none => word "None"
  | some a => wrapped "Some" (item a)

/-- Floats are positional from 0.0001 to below 10 ^ 16. -/
def floatStyle : FloatStyle := ⟨-4, 15, false, .away⟩

def float (bits : UInt64) : Shown :=
  word <| match Binary64.decode bits with
    | .nan => "NaN"
    | .infinite negative => if negative then "-inf" else "inf"
    | .finite negative mantissa exponent => floatStyle.write negative mantissa exponent

end Shown

open Shown

def Handle.shown (h : Handle) : Shown := wrapped "Handle" (nat h.id)

/-- A typed reference to an object. -/
def Handle.shownAsRef (h : Handle) : Shown := wrapped "TxRef" h.shown

mutual

def Value.shown : Value → Shown
  | .null => word ValueKind.null.name
  | .bool b => wrapped ValueKind.bool.name (Shown.bool b)
  | .int n => wrapped ValueKind.int.name (word (toString n.toInt))
  | .float bits => wrapped ValueKind.float.name (Shown.float bits)
  | .string text => wrapped ValueKind.string.name (quoted text)
  | .bytes octets => wrapped ValueKind.bytes.name (list (octets.map fun b => nat b.toNat))
  | .ref h => wrapped ValueKind.ref.name h.shown
  | .array items => wrapped ValueKind.array.name (list (Value.shownAll items))

def Value.shownAll : List Value → List Shown
  | [] => []
  | v :: rest => v.shown :: Value.shownAll rest

end

def Record.shown (r : Record) : Shown :=
  parts "DematerializedRecord" [("handle", r.handle.shown), ("version", Shown.version r.version),
    ("type", word r.type.name), ("fields", list (Value.shownAll r.fields))]

def PendingRecord.shown (p : PendingRecord) : Shown :=
  parts "PendingRecord" [("handle", p.handle.shown), ("type", word p.type.name),
    ("fields", wrapped "Fields" (list (Value.shownAll p.fields)))]

end TransactionalHeap
