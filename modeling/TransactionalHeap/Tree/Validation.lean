import TransactionalHeap.Tree

/-!
# Checking a tree

`HeapTree.validate` walks a tree from left to right, keeping the handle seen last and the number of
nodes seen. It reports the first fault in the order of the walk: at each node a handle out of
order, then, once both children are walked, a wrong cached height, then a missing balance. A wrong
length is found last.
-/

namespace TransactionalHeap

variable [Transactables]

/-- What the walk has seen so far. -/
structure Walk where
  previous : Option Handle := none
  count : Nat := 0
  deriving DecidableEq, Repr

namespace Tree

/-- Walk a subtree: its measured height and what has been seen after it. -/
def check : Tree → Walk → Except Defect (Nat × Walk)
  | empty, w => .ok (0, w)
  | node cell left right, w => do
    let (leftHeight, w) ← check left w
    if let some previous := w.previous then
      if cell.handle ≤ previous then
        throw (.orderViolated previous cell.handle)
    let (rightHeight, w) ← check right ⟨some cell.handle, w.count + 1⟩
    let measured := 1 + max leftHeight rightHeight
    if cell.height ≠ measured then
      throw (.wrongHeight cell.handle cell.height measured)
    if ((rightHeight : Int) - leftHeight).natAbs > 1 then
      throw (.outOfBalance cell.handle leftHeight rightHeight)
    return (measured, w)

end Tree

def HeapTree.validate (t : HeapTree) : Except Error Unit :=
  match t.root.check {} with
  | .error defect => .error (.internal defect)
  | .ok (_, w) =>
    if w.count = t.length then .ok ()
    else .error (.internal (.wrongLength t.length w.count))

end TransactionalHeap
