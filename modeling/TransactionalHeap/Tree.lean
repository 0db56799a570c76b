import TransactionalHeap.Record

/-!
# The balanced tree of records

The heap is searched through a binary tree ordered by handle. Every node caches its height, and
`insert` rebuilds the path to the changed node, rotating wherever the children's heights would
differ by more than one. A tree is a plain value: inserting into one leaves it as it was.

Nothing in the type keeps a node's cached height or its place in the order right. That is what
`insert` achieves and `HeapTree.validate` checks.
-/

namespace TransactionalHeap

variable [Transactables]

/-- What a node holds beside its children. -/
structure Cell where
  handle : Handle
  record : Record
  version : Version
  height : Nat
  deriving DecidableEq

inductive Tree where
  | empty
  | node (cell : Cell) (left right : Tree)
  deriving DecidableEq

namespace Tree

/-- The cached height; an empty tree has height zero. -/
def height : Tree → Nat
  | empty => 0
  | node cell _ _ => cell.height

/-- A node over two children, its height cached afresh. -/
def join (cell : Cell) (left right : Tree) : Tree :=
  node { cell with height := 1 + max left.height right.height } left right

/-- How much higher the right child is than the left one, by their cached heights. -/
def tilt (left right : Tree) : Int := (right.height : Int) - left.height

/-- A node over two children whose heights may differ by two, rotated where they do. -/
def rebalance (pivot : Cell) (left right : Tree) : Tree :=
  if tilt left right > 1 then
    match right with
    | empty => join pivot left empty
    | node r rl rr =>
      if tilt rl rr ≥ 0 then join r (join pivot left rl) rr
      else match rl with
        | empty => join pivot left right
        | node m ml mr => join m (join pivot left ml) (join r mr rr)
  else if tilt left right < -1 then
    match left with
    | empty => join pivot empty right
    | node l ll lr =>
      if tilt ll lr ≤ 0 then join l ll (join pivot lr right)
      else match lr with
        | empty => join pivot left right
        | node m ml mr => join m (join l ll ml) (join pivot mr right)
  else join pivot left right

/-- The tree with the record at its place, and whether a node was added for it. A node that holds
the handle already gets the new record and keeps its children. -/
def insert (record : Record) (version : Version) : Tree → Tree × Bool
  | empty => (join ⟨record.handle, record, version, 0⟩ empty empty, true)
  | node cell left right =>
    if record.handle = cell.handle then (join { cell with record, version } left right, false)
    else if record.handle < cell.handle then
      let (left, added) := insert record version left
      (rebalance cell left right, added)
    else
      let (right, added) := insert record version right
      (rebalance cell left right, added)

/-- Descend by handle order to the node that holds a handle. -/
def find (handle : Handle) : Tree → Option Cell
  | empty => none
  | node cell left right =>
    if handle = cell.handle then some cell
    else if handle < cell.handle then find handle left
    else find handle right

/-- The cells from left to right. -/
def cells : Tree → List Cell
  | empty => []
  | node cell left right => cells left ++ cell :: cells right

def size : Tree → Nat
  | empty => 0
  | node _ left right => size left + 1 + size right

@[simp] theorem length_cells (t : Tree) : t.cells.length = t.size := by
  induction t with
  | empty => rfl
  | node cell left right ihl ihr => simp [cells, size, ihl, ihr]; omega

end Tree

/-- A tree with the number of its nodes. -/
structure HeapTree where
  root : Tree := .empty
  length : Nat := 0
  deriving DecidableEq

namespace HeapTree

instance : EmptyCollection HeapTree := ⟨⟨.empty, 0⟩⟩

def isEmpty (t : HeapTree) : Bool := t.root matches .empty

def height (t : HeapTree) : Nat := t.root.height

def find? (t : HeapTree) (handle : Handle) : Option Cell := t.root.find handle

def get? (t : HeapTree) (handle : Handle) : Option Record := (t.find? handle).map Cell.record

/-- The tree that holds the record, under the record's own handle and version. -/
def insert (t : HeapTree) (record : Record) : HeapTree :=
  let (root, added) := t.root.insert record record.version
  ⟨root, t.length + added.toNat⟩

/-- Insert records one after another. -/
def insertAll (t : HeapTree) (records : List Record) : HeapTree := records.foldl insert t

end HeapTree

end TransactionalHeap
