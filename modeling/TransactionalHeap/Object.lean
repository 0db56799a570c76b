import TransactionalHeap.Fields

/-!
# Live objects and their types

A transaction works on live objects; the heap stores them flattened to fields. Which types of object
there are is up to the application: it gives `Transactables`, and everything that has to do with objects
is over whatever it gives.

Nothing is asked of the types but that each rebuilds objects of its own. What a rebuild gives need not
flatten to the fields it was made from, it need not read all of them, and it may fail with any error.
-/

namespace TransactionalHeap

/-- The types whose objects a heap may hold: how their objects flatten to fields, which handles a load
follows from an object, and how a reader rebuilds one. -/
class Transactables where
  Tag : Type
  decEqTag : DecidableEq Tag
  tagName : Tag → String
  /-- The live objects of all types. -/
  Live : Type
  tag : Live → Tag
  flatten : Live → Fields
  /-- All handles in the fields, unless a type says otherwise. -/
  references : Live → List Handle := fun o => Fields.handles (flatten o)
  rebuild : Tag → Step FieldReader Live
  tag_of_rebuild {t : Tag} {o : Live} {r r' : FieldReader} : rebuild t r = .ok o r' → tag o = t

/-- The types of object a heap may hold. -/
def ObjectType [Transactables] : Type := Transactables.Tag

/-- A live object of one of the types. -/
def Object [Transactables] : Type := Transactables.Live

variable [Transactables]

instance : DecidableEq ObjectType := Transactables.decEqTag

def ObjectType.name (type : ObjectType) : String := Transactables.tagName type

/-- Rebuild an object of the type from the fields at hand; fields left over are not its concern. -/
def ObjectType.rematerialize (type : ObjectType) : Step FieldReader Object :=
  Transactables.rebuild type

/-- The object that the type reads from the start of a field list, whatever it leaves over. -/
def ObjectType.read (type : ObjectType) (fields : Fields) : Except Error Object :=
  (FieldReader.readFrom type.rematerialize fields).1

namespace Object

def type (o : Object) : ObjectType := Transactables.tag o

/-- Flatten an object to its fields. -/
def dematerialize (o : Object) : Fields := Transactables.flatten o

/-- The handles that a load follows from the object. -/
def children (o : Object) : List Handle := Transactables.references o

/-- View an object as one of the given type. -/
def castTo (type : ObjectType) (o : Object) : Except Error Object :=
  if o.type = type then .ok o else .error (.wrongType type.name o.type.name)

end Object

/-- A type rebuilds objects of its own. -/
theorem ObjectType.type_of_rematerialize {type : ObjectType} {o : Object} {r r' : FieldReader}
    (h : type.rematerialize r = .ok o r') : o.type = type :=
  Transactables.tag_of_rebuild h

theorem ObjectType.type_of_read {type : ObjectType} {fields : Fields} {o : Object}
    (h : type.read fields = .ok o) : o.type = type := by
  unfold ObjectType.read FieldReader.readFrom at h
  split at h
  · next found r hread =>
    cases h
    exact type_of_rematerialize hread
  · cases h

/-- Rebuilds stored fields into an object, demanding that every field be read. It is named by the
type whose reader it runs. -/
structure Materializer where
  type : ObjectType
  deriving DecidableEq

def Materializer.run (m : Materializer) (fields : Fields) : Except Error Object :=
  match FieldReader.readFrom m.type.rematerialize fields with
  | (.error fault, _) => .error fault
  | (.ok o, r) =>
    if r.remaining = 0 then .ok o else .error (.serialization (.unread m.type.name r.remaining))

end TransactionalHeap
