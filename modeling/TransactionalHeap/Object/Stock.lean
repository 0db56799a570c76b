import TransactionalHeap.Object
import TransactionalHeap.Proofs.Step

/-!
# Ready-made types

Ten types of object, among them the simplest ones and the awkward ones: `obj`, `sealed` and `leaky` hold
any fields, a sealed object hides its references, and a leaky one is rebuilt from its first field alone.
For every object but the leaky ones rebuilding undoes flattening and takes every field
(`StockObject.run_dematerialize`).
-/

namespace TransactionalHeap

inductive StockType where
  | obj | sealed | leaky | unit | counter | reading | account | node | multi | mixed
  deriving DecidableEq, Repr, Inhabited

namespace StockType

def name : StockType → String
  | obj => "Obj"
  | sealed => "Opaque"
  | leaky => "Leaky"
  | unit => "Unit"
  | counter => "Counter"
  | reading => "Reading"
  | account => "Account"
  | node => "Node"
  | multi => "Multi"
  | mixed => "Mixed"

def all : List StockType :=
  [obj, sealed, leaky, unit, counter, reading, account, node, multi, mixed]

end StockType

inductive StockObject where
  | obj (fields : Fields)
  | sealed (fields : Fields)
  | leaky (fields : Fields)
  | unit
  | counter (value : Int64)
  | reading (bits : UInt64)
  | account (owner : String) (balance : Int64)
  | node (value : Int64) (next : Option Handle)
  | multi (links : List Handle)
  | mixed (flag : Bool) (ratio : UInt64) (name : String) (blob : List UInt8) (link : Handle)
      (next : Option Handle) (links : List Handle)
  deriving DecidableEq, Repr, Inhabited

namespace StockObject

def type : StockObject → StockType
  | obj _ => .obj
  | sealed _ => .sealed
  | leaky _ => .leaky
  | unit => .unit
  | counter _ => .counter
  | reading _ => .reading
  | account .. => .account
  | node .. => .node
  | multi _ => .multi
  | mixed .. => .mixed

def dematerialize : StockObject → Fields
  | obj fields | sealed fields | leaky fields => fields
  | unit => []
  | counter value => [.int value]
  | reading bits => [.float bits]
  | account owner balance => [.string owner, .int balance]
  | node value next => [.int value, Value.ofOptRef next]
  | multi links => [Value.ofRefs links]
  | mixed flag ratio name blob link next links =>
    [.bool flag, .float ratio, .string name, .bytes blob, .ref link, Value.ofOptRef next,
      Value.ofRefs links]

def children : StockObject → List Handle
  | sealed _ => []
  | o => Fields.handles o.dematerialize

end StockObject

namespace StockType

open FieldReader

def rematerialize : StockType → Reading StockObject
  | obj => return .obj (← nextAll)
  | sealed => return .sealed (← nextAll)
  | leaky => return .leaky [.int (← nextInt)]
  | unit => return .unit
  | counter => return .counter (← nextInt)
  | reading => return .reading (← nextFloat)
  | account => do
    let owner ← nextString
    let balance ← nextInt
    return .account owner balance
  | node => do
    let value ← nextInt
    let next ← nextOptRef
    return .node value next
  | multi => return .multi (← nextRefs)
  | mixed => do
    let flag ← nextBool
    let ratio ← nextFloat
    let name ← nextString
    let blob ← nextBytes
    let link ← nextRef
    let next ← nextOptRef
    let links ← nextRefs
    return .mixed flag ratio name blob link next links

theorem type_of_rematerialize {type : StockType} {o : StockObject} {r r' : FieldReader}
    (h : type.rematerialize r = .ok o r') : o.type = type := by
  cases type with
  | unit =>
    cases h
    rfl
  | obj | «sealed» | leaky | counter | reading | multi =>
    obtain ⟨_, _, -, h⟩ := ok_of_bind h
    cases h
    rfl
  | account | node =>
    obtain ⟨_, _, -, h⟩ := ok_of_bind h
    obtain ⟨_, _, -, h⟩ := ok_of_bind h
    cases h
    rfl
  | mixed =>
    obtain ⟨_, _, -, h⟩ := ok_of_bind h
    obtain ⟨_, _, -, h⟩ := ok_of_bind h
    obtain ⟨_, _, -, h⟩ := ok_of_bind h
    obtain ⟨_, _, -, h⟩ := ok_of_bind h
    obtain ⟨_, _, -, h⟩ := ok_of_bind h
    obtain ⟨_, _, -, h⟩ := ok_of_bind h
    obtain ⟨_, _, -, h⟩ := ok_of_bind h
    cases h
    rfl

end StockType

instance stock : Transactables where
  Tag := StockType
  decEqTag := inferInstance
  tagName := StockType.name
  Live := StockObject
  tag := StockObject.type
  flatten := StockObject.dematerialize
  references := StockObject.children
  rebuild type := FieldReader.decoding type.rematerialize
  tag_of_rebuild h := StockType.type_of_rematerialize (FieldReader.ok_of_decoding h)

instance : DecidableEq Object := inferInstanceAs (DecidableEq StockObject)

namespace Object

@[match_pattern] abbrev obj (fields : Fields) : Object := StockObject.obj fields

@[match_pattern] abbrev «sealed» (fields : Fields) : Object := StockObject.sealed fields

@[match_pattern] abbrev leaky (fields : Fields) : Object := StockObject.leaky fields

@[match_pattern] abbrev unit : Object := StockObject.unit

@[match_pattern] abbrev counter (value : Int64) : Object := StockObject.counter value

@[match_pattern] abbrev account (owner : String) (balance : Int64) : Object :=
  StockObject.account owner balance

@[match_pattern] abbrev node (value : Int64) (next : Option Handle) : Object :=
  StockObject.node value next

@[match_pattern] abbrev multi (links : List Handle) : Object := StockObject.multi links

end Object

namespace ObjectType

@[match_pattern] abbrev obj : ObjectType := StockType.obj

@[match_pattern] abbrev leaky : ObjectType := StockType.leaky

@[match_pattern] abbrev counter : ObjectType := StockType.counter

@[match_pattern] abbrev account : ObjectType := StockType.account

@[match_pattern] abbrev node : ObjectType := StockType.node

@[match_pattern] abbrev multi : ObjectType := StockType.multi

def all : List ObjectType := StockType.all

/-- A new object of the type, made from a field list. A leaky object takes the list as it is, any
other type reads what it needs and passes over the rest. -/
def build (type : ObjectType) (fields : Fields) : Except Error Object :=
  match type with
  | .leaky => .ok (.leaky fields)
  | type => type.read fields

end ObjectType

end TransactionalHeap
