import TransactionalHeap.Object

/-!
# Records

A record is one committed revision of an object: its handle, the version that wrote it, its type
and its fields. A pending record is the same before a commit has given it a version. Both carry
the materializer that will rebuild the object.
-/

namespace TransactionalHeap

variable [Transactables]

structure Record where
  handle : Handle
  version : Version
  type : ObjectType
  materializer : Materializer
  fields : Fields
  deriving DecidableEq

structure PendingRecord where
  handle : Handle
  type : ObjectType
  materializer : Materializer
  fields : Fields
  deriving DecidableEq

namespace PendingRecord

/-- The pending revision of a live object. -/
def ofObject (handle : Handle) (o : Object) : PendingRecord where
  handle
  type := o.type
  materializer := ⟨o.type⟩
  fields := o.dematerialize

/-- The record that a commit at `version` publishes. -/
def stamp (p : PendingRecord) (version : Version) : Record where
  handle := p.handle
  version
  type := p.type
  materializer := p.materializer
  fields := p.fields

end PendingRecord

namespace Record

/-- The live object, whatever its type. -/
def rebuild (r : Record) : Except Error Object := r.materializer.run r.fields

/-- The live object as one of the given type. Fields that the type does not read are passed over. -/
def rebuildAs (type : ObjectType) (r : Record) : Except Error Object :=
  if r.type = type then type.read r.fields else .error (.wrongType type.name r.type.name)

def sameFields (r : Record) (fields : Fields) : Bool := r.fields = fields

/-- Every handle the record refers to, in field order. -/
def children (r : Record) : List Handle := Fields.handles r.fields

end Record

end TransactionalHeap
