import TransactionalHeap.Error

/-!
# Field lists and their reader

`Fields` is an object flattened to values, in order. It is built by appending and read back by a
`FieldReader`, a position in the list. A typed read takes the field at the position whether or not
its kind matches, so a reader can go on after a mismatch; at the end nothing is taken.
-/

namespace TransactionalHeap

/-- An object flattened to values. -/
abbrev Fields := List Value

namespace Fields

/-- One call of a builder: what is appended to the list. -/
inductive Part where
  | null
  | bool (b : Bool)
  | int (n : Int64)
  | float (bits : UInt64)
  | string (text : String)
  | bytes (octets : List UInt8)
  | reference (handle : Handle)
  | optReference (handle : Option Handle)
  | references (handles : List Handle)
  | value (v : Value)
  deriving Repr

def Part.toValue : Part → Value
  | .null => .null
  | .bool b => .bool b
  | .int n => .int n
  | .float bits => .float bits
  | .string text => .string text
  | .bytes octets => .bytes octets
  | .reference h => .ref h
  | .optReference h => Value.ofOptRef h
  | .references hs => Value.ofRefs hs
  | .value v => v

def push (fields : Fields) (part : Part) : Fields := fields ++ [part.toValue]

/-- The list that a run of builder calls gives. -/
def build (parts : List Part) : Fields := parts.foldl push []

/-- Every handle the fields refer to, left to right, with repeats. -/
def handles (fields : Fields) : List Handle := Value.referencesOf fields

end Fields

/-- A position in a field list. -/
structure FieldReader where
  fields : Fields
  position : Nat := 0
  deriving Repr

/-- A read leaves the reader where it came to, also where it fails. -/
abbrev Reading (α : Type) := EStateM DecodeFault FieldReader α

namespace FieldReader

def start (fields : Fields) : FieldReader := { fields }

def remaining (r : FieldReader) : Nat := r.fields.length - r.position

/-- Take the field at the position; at the end nothing is taken. -/
def next : Reading Value := fun r =>
  match r.fields[r.position]? with
  | some v => .ok v { r with position := r.position + 1 }
  | none => .error (.pastEnd r.position r.fields.length) r

/-- The report on the field taken last. -/
def mismatch {α : Type} (expected : Expectation) (found : Value) : Reading α := fun r =>
  .error (.mismatch (r.position - 1) expected found.kind) r

/-- Take a field and view it as a value of one kind. -/
def nextAs {α : Type} (kind : ValueKind) (view : Value → Option α) : Reading α := do
  let v ← next
  match view v with
  | some a => pure a
  | none => mismatch (.one kind) v

def nextBool : Reading Bool := nextAs .bool Value.asBool?

def nextInt : Reading Int64 := nextAs .int Value.asInt?

def nextFloat : Reading UInt64 := nextAs .float Value.asFloat?

def nextString : Reading String := nextAs .string Value.asString?

def nextBytes : Reading (List UInt8) := nextAs .bytes Value.asBytes?

def nextRef : Reading Handle := nextAs .ref Value.asRef?

/-- A reference, or null for an absent one. -/
def nextOptRef : Reading (Option Handle) := do
  match ← next with
  | .null => pure none
  | .ref h => pure (some h)
  | v => mismatch .refOrNull v

/-- View list items as references; the first that is none is reported. -/
def refItems : List Value → Reading (List Handle)
  | [] => pure []
  | v :: rest =>
    match v.asRef? with
    | some h => return h :: (← refItems rest)
    | none => mismatch (.one .ref) v

theorem refItems_map_ref (hs : List Handle) (r : FieldReader) :
    refItems (hs.map Value.ref) r = .ok hs r := by
  induction hs with
  | nil => rfl
  | cons h rest ih =>
    simp only [List.map_cons, refItems, Value.asRef?, bind, EStateM.bind, ih]
    rfl

/-- A list of references only. -/
def nextRefs : Reading (List Handle) := do
  let v ← next
  match v.asArray? with
  | some items => refItems items
  | none => mismatch (.one .array) v

/-- Everything from the position to the end. -/
def nextAll : Reading Fields := fun r =>
  .ok (r.fields.drop r.position) { r with position := r.fields.length }

/-- A read whose faults are reported as errors of decoding. -/
def decoding {α : Type} (reading : Reading α) : Step FieldReader α := fun r =>
  match reading r with
  | .ok a r => .ok a r
  | .error fault r => .error (.serialization fault) r

theorem ok_of_decoding {α : Type} {reading : Reading α} {a : α} {r r' : FieldReader}
    (h : decoding reading r = .ok a r') : reading r = .ok a r' := by
  unfold decoding at h
  split at h
  · next hread =>
    cases h
    exact hread
  · cases h

/-- Run a read from the start of a list: its result and the reader it leaves. -/
def readFrom {ε α : Type} (reading : EStateM ε FieldReader α) (fields : Fields) :
    Except ε α × FieldReader :=
  match reading.run (start fields) with
  | .ok a r => (.ok a, r)
  | .error e r => (.error e, r)

end FieldReader

end TransactionalHeap
