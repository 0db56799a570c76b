import TransactionalHeap.Json
import TransactionalHeap.Value

/-!
# Values as JSON texts

A value is written as an object with its kind as the only key; a null is the bare name of its kind.
Reading accepts just these forms, and a null also as an object.
-/

namespace TransactionalHeap

namespace Value

/-! ## Writing -/

/-- An object with one member, whose text is given. -/
def tagged (kind : ValueKind) (content : String) : String :=
  "\x7b\"" ++ kind.name ++ "\":" ++ content ++ "\x7d"

def bracketed (items : List String) : String := "[" ++ ",".intercalate items ++ "]"

mutual

def toJson : Value → String
  | null => "\"" ++ ValueKind.null.name ++ "\""
  | bool b => tagged .bool (if b then "true" else "false")
  | int n => tagged .int (toString n.toInt)
  | float bits => tagged .float (Json.writeFloat bits)
  | string text => tagged .string (Json.writeString text)
  | bytes octets => tagged .bytes (bracketed (octets.map fun b => toString b.toNat))
  | ref h => tagged .ref (toString h.id)
  | array items => tagged .array (bracketed (toJsons items))

def toJsons : List Value → List String
  | [] => []
  | v :: rest => toJson v :: toJsons rest

end

/-! ## Reading -/

/-- A whole number below a bound. -/
def naturalBelow? (bound : Nat) : Json → Option Nat
  | .int n => if 0 ≤ n ∧ n < bound then some n.toNat else none
  | _ => none

/-- The bits of a number, an integer being rounded to the nearest float. -/
def floatBits? : Json → Option UInt64
  | .int n => some (Binary64.encode (n < 0) (Binary64.nearest n.natAbs 1 0))
  | .float bits => some bits
  | _ => none

mutual

def ofJson? : Json → Option Value
  | .string name => if name = ValueKind.null.name then some null else none
  | .object [(name, content)] => ofTagged? name content
  | _ => none

/-- The value of the kind of that name. -/
def ofTagged? (name : String) : Json → Option Value
  | .null => if name = ValueKind.null.name then some null else none
  | .bool b => if name = ValueKind.bool.name then some (bool b) else none
  | .string text => if name = ValueKind.string.name then some (string text) else none
  | .array items =>
    if name = ValueKind.array.name then (ofJsons? items).map array
    else if name = ValueKind.bytes.name then do
      return bytes ((← items.mapM (naturalBelow? UInt8.size)).map UInt8.ofNat)
    else none
  | .int n =>
    if name = ValueKind.int.name then
      if Int64.minValue.toInt ≤ n ∧ n ≤ Int64.maxValue.toInt then some (int (Int64.ofInt n)) else none
    else if name = ValueKind.ref.name then (naturalBelow? UInt64.size (.int n)).map fun n => ref ⟨n⟩
    else if name = ValueKind.float.name then (floatBits? (.int n)).map float
    else none
  | .float bits => if name = ValueKind.float.name then some (float bits) else none
  | .object _ => none

def ofJsons? : List Json → Option (List Value)
  | [] => some []
  | j :: rest => do
    let v ← ofJson? j
    let vs ← ofJsons? rest
    return v :: vs

end

/-- Read a value from a JSON text. -/
def ofJsonText? (text : String) : Option Value := Json.ofText? text >>= ofJson?

end Value

end TransactionalHeap
