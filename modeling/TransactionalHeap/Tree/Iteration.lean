import TransactionalHeap.Tree

/-!
# Walking a tree in order

An iteration keeps a stack of the nodes still to be given out: each waits, with its right subtree,
until everything to its left is out. Giving one out pushes the left spine of its right subtree.
Every step takes one node off the nodes that the stack stands for, so the walk ends.
-/

namespace TransactionalHeap

variable [Transactables]

/-- A cell to be given out, and the subtree that comes after it. -/
structure PendingCell where
  cell : Cell
  right : Tree

structure Iteration where
  stack : List PendingCell := []

namespace Iteration

/-- Push a node and all nodes on the way to its leftmost one. -/
def pushSpine : Tree → List PendingCell → List PendingCell
  | .empty, stack => stack
  | .node cell left right, stack => pushSpine left (⟨cell, right⟩ :: stack)

/-- Give out the next cell. -/
def next (it : Iteration) : Option (Cell × Iteration) :=
  match it.stack with
  | [] => none
  | top :: rest => some (top.cell, ⟨pushSpine top.right rest⟩)

/-- The number of nodes a stack stands for. -/
def weight : List PendingCell → Nat
  | [] => 0
  | top :: rest => 1 + top.right.size + weight rest

theorem weight_pushSpine (t : Tree) (stack : List PendingCell) :
    weight (pushSpine t stack) = t.size + weight stack := by
  induction t generalizing stack with
  | empty => simp [pushSpine, Tree.size]
  | node cell left right ihl _ =>
    simp only [pushSpine, ihl, weight, Tree.size]
    omega

/-- Everything that is still to be given out, in order. -/
def drain (it : Iteration) : List Cell :=
  match _h : it.next with
  | none => []
  | some (cell, rest) => cell :: drain rest
termination_by weight it.stack
decreasing_by
  unfold next at _h
  split at _h
  · simp at _h
  · next top tail hstack =>
    simp only [Option.some.injEq, Prod.mk.injEq] at _h
    obtain ⟨_, rfl⟩ := _h
    rw [hstack, weight_pushSpine]
    simp only [weight]
    omega

end Iteration

/-- An iteration over a whole tree. -/
def HeapTree.iterate (t : HeapTree) : Iteration := ⟨Iteration.pushSpine t.root []⟩

end TransactionalHeap
