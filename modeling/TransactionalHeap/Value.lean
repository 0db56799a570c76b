import TransactionalHeap.Identity

/-!
# Field values

An object is stored as a flat list of values. A value is a scalar, a reference to another object,
or a list of values. Floats are kept as their 64 bits and only ever copied and compared by them, so
equality of values is plain equality: a NaN equals itself and the two zeros differ.
-/

namespace TransactionalHeap

inductive Value where
  | null
  | bool (b : Bool)
  | int (n : Int64)
  | float (bits : UInt64)
  | string (text : String)
  | bytes (octets : List UInt8)
  | ref (handle : Handle)
  | array (items : List Value)
  deriving Repr, Inhabited

/-- The eight kinds of value. -/
inductive ValueKind where
  | null | bool | int | float | string | bytes | ref | array
  deriving DecidableEq, Repr

def ValueKind.name : ValueKind → String
  | .null => "Null"
  | .bool => "Bool"
  | .int => "Int"
  | .float => "Float"
  | .string => "String"
  | .bytes => "Bytes"
  | .ref => "Ref"
  | .array => "Array"

namespace Value

def kind : Value → ValueKind
  | null => .null
  | bool _ => .bool
  | int _ => .int
  | float _ => .float
  | string _ => .string
  | bytes _ => .bytes
  | ref _ => .ref
  | array _ => .array

/-! ## Equality -/

mutual

def decideEq (a b : Value) : Decidable (a = b) :=
  match a, b with
  | null, null => isTrue rfl
  | bool x, bool y => decidable_of_iff (x = y) (by simp)
  | int x, int y => decidable_of_iff (x = y) (by simp)
  | float x, float y => decidable_of_iff (x = y) (by simp)
  | string x, string y => decidable_of_iff (x = y) (by simp)
  | bytes x, bytes y => decidable_of_iff (x = y) (by simp)
  | ref x, ref y => decidable_of_iff (x = y) (by simp)
  | array xs, array ys =>
    match decideEqList xs ys with
    | isTrue h => isTrue (by rw [h])
    | isFalse h => isFalse fun he => h (array.inj he)
  | null, bool _ | null, int _ | null, float _ | null, string _ | null, bytes _ | null, ref _
  | null, array _ | bool _, null | bool _, int _ | bool _, float _ | bool _, string _
  | bool _, bytes _ | bool _, ref _ | bool _, array _ | int _, null | int _, bool _
  | int _, float _ | int _, string _ | int _, bytes _ | int _, ref _ | int _, array _
  | float _, null | float _, bool _ | float _, int _ | float _, string _ | float _, bytes _
  | float _, ref _ | float _, array _ | string _, null | string _, bool _ | string _, int _
  | string _, float _ | string _, bytes _ | string _, ref _ | string _, array _ | bytes _, null
  | bytes _, bool _ | bytes _, int _ | bytes _, float _ | bytes _, string _ | bytes _, ref _
  | bytes _, array _ | ref _, null | ref _, bool _ | ref _, int _ | ref _, float _
  | ref _, string _ | ref _, bytes _ | ref _, array _ | array _, null | array _, bool _
  | array _, int _ | array _, float _ | array _, string _ | array _, bytes _
  | array _, ref _ => isFalse (by simp)

def decideEqList (xs ys : List Value) : Decidable (xs = ys) :=
  match xs, ys with
  | [], [] => isTrue rfl
  | x :: xs, y :: ys =>
    match decideEq x y, decideEqList xs ys with
    | isTrue h, isTrue hs => isTrue (by rw [h, hs])
    | isFalse h, _ => isFalse fun he => h (List.cons.inj he).1
    | _, isFalse hs => isFalse fun he => hs (List.cons.inj he).2
  | [], _ :: _ | _ :: _, [] => isFalse (by simp)

end

instance : DecidableEq Value := decideEq

/-! ## Accessors -/

def isNull : Value → Bool
  | null => true
  | _ => false

def asBool? : Value → Option Bool
  | bool b => some b
  | _ => none

def asInt? : Value → Option Int64
  | int n => some n
  | _ => none

/-- The bits of a float. -/
def asFloat? : Value → Option UInt64
  | float bits => some bits
  | _ => none

def asString? : Value → Option String
  | string text => some text
  | _ => none

def asBytes? : Value → Option (List UInt8)
  | bytes octets => some octets
  | _ => none

def asRef? : Value → Option Handle
  | ref h => some h
  | _ => none

def asArray? : Value → Option (List Value)
  | array items => some items
  | _ => none

/-- An absent reference is null. -/
def ofOptRef : Option Handle → Value
  | some h => ref h
  | none => null

def ofRefs (handles : List Handle) : Value := array (handles.map ref)

/-! ## References -/

mutual

/-- Every handle a value refers to, left to right, also inside nested arrays. -/
def references : Value → List Handle
  | ref h => [h]
  | array items => referencesOf items
  | null | bool _ | int _ | float _ | string _ | bytes _ => []

/-- The references of a list of values, in order. -/
def referencesOf : List Value → List Handle
  | [] => []
  | v :: rest => references v ++ referencesOf rest

end

end Value

end TransactionalHeap
