import TransactionalHeap.Proofs.Tree.Insertions
import TransactionalHeap.Tree.Iteration

/-!
# What a tree shows of its contents

An iteration gives out the cells from left to right, whatever the tree looks like
(`HeapTree.drain_iterate`). Of sound trees the search for single handles tells everything else that
can be seen but the shape (`HeapTree.Sound.sameContents`).
-/
namespace TransactionalHeap

variable [Transactables]

namespace Iteration

/-- The cells that a stack stands for, in the order in which they are given out. -/
def pending : List PendingCell → List Cell
  | [] => []
  | top :: rest => top.cell :: (top.right.cells ++ pending rest)

theorem pending_pushSpine (t : Tree) (stack : List PendingCell) :
    pending (pushSpine t stack) = t.cells ++ pending stack := by
  induction t generalizing stack with
  | empty => rfl
  | node cell left right ihl _ =>
    rw [pushSpine, ihl, pending, Tree.cells, List.append_assoc, List.cons_append]

/-- Every cell is given out, in order. -/
theorem drain_eq_pending (it : Iteration) : it.drain = pending it.stack := by
  induction it using Iteration.drain.induct with
  | case1 it done =>
    obtain ⟨_ | ⟨top, rest⟩⟩ := it
    · rw [drain, done]
      rfl
    · cases done
  | case2 it cell later next ih =>
    rw [drain, next]
    obtain ⟨_ | ⟨top, rest⟩⟩ := it
    · cases next
    · obtain ⟨rfl, rfl⟩ := Prod.mk.inj (Option.some.inj next)
      rw [pending_pushSpine] at ih
      exact congrArg (top.cell :: ·) ih

end Iteration

/-- What a node holds, its height apart. -/
def Cell.content (cell : Cell) : Handle × Record × Version := (cell.handle, cell.record, cell.version)

namespace HeapTree

variable {t t' : HeapTree}

theorem drain_iterate (t : HeapTree) : t.iterate.drain = t.root.cells := by
  rw [Iteration.drain_eq_pending, iterate, Iteration.pending_pushSpine, Iteration.pending,
    List.append_nil]

/-- Two trees show the same: the number of nodes, what is found for each handle, and what is given out
one after the other. Only where their nodes are, and how high, may differ. -/
structure SameContents (t t' : HeapTree) : Prop where
  length : t.length = t'.length
  find : ∀ h, (t.find? h).map Cell.content = (t'.find? h).map Cell.content
  iterate : t.iterate.drain.map Cell.content = t'.iterate.drain.map Cell.content

theorem find?_content (t : HeapTree) (h : Handle) :
    (t.find? h).map Cell.content = (t.stored h).map fun found => (h, found.1, found.2) := by
  cases hfound : t.find? h with
  | none => rw [stored, hfound]; rfl
  | some cell =>
    obtain rfl := (Tree.mem_cells_of_find hfound).2
    rw [stored, hfound]
    rfl

/-- What is found for single handles settles what a tree shows. -/
theorem Sound.sameContents (sound : t.Sound) (sound' : t'.Sound)
    (same : ∀ h, t.stored h = t'.stored h) : t.SameContents t' := by
  have hbindings : t.root.bindings = t'.root.bindings := by
    apply SortedMap.lookup_ext sound.ordered sound'.ordered
    intro h
    rw [← Tree.find_eq_lookup h sound.ordered, ← Tree.find_eq_lookup h sound'.ordered]
    exact same h
  have hcells : t.root.cells.map Cell.content = t'.root.cells.map Cell.content := by
    rw [Tree.bindings_eq_map, Tree.bindings_eq_map] at hbindings
    exact hbindings
  refine ⟨?_, fun h => ?_, ?_⟩
  · rw [sound.counted, sound'.counted, ← Tree.length_bindings, hbindings, Tree.length_bindings]
  · rw [find?_content, find?_content, same]
  · rw [drain_iterate, drain_iterate, hcells]

end HeapTree

end TransactionalHeap
