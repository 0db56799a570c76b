import TransactionalHeap.Object.Stock
import TransactionalHeap.Proofs.Tree.Insertions

/-!
# Rebalancing, for every input that it can meet

A pivot between two ordered and balanced trees whose heights differ by two levels at most is all that
rebalancing needs to know. It makes one such tree of the three, with everything where it was in the
order and at most one level higher than the higher of the two (`Tree.rebalance_repairs`). That goes
beyond what insertions ask for: none of them ever leaves a child that is level below a node that is
two levels off.
-/
namespace TransactionalHeap

section

variable [Transactables]

namespace Tree

variable {pivot : Cell} {left right : Tree}

/-- A pivot between all handles of one ordered tree and all handles of another keeps them in order. -/
theorem ordered_rebalance (orderedLeft : left.Ordered) (orderedRight : right.Ordered)
    (smaller : ∀ c ∈ left.cells, c.handle < pivot.handle)
    (greater : ∀ c ∈ right.cells, pivot.handle < c.handle) :
    (rebalance pivot left right).Ordered := by
  have hsmaller : ∀ x ∈ left.bindings, rank x.1 < rank pivot.handle := by
    rw [bindings_eq_map]
    exact List.forall_mem_map.mpr smaller
  have hgreater : ∀ x ∈ right.bindings, rank pivot.handle < rank x.1 := by
    rw [bindings_eq_map]
    exact List.forall_mem_map.mpr greater
  rw [Ordered, bindings_rebalance]
  refine List.pairwise_append.mpr ⟨orderedLeft, List.pairwise_cons.mpr ⟨hgreater, orderedRight⟩, ?_⟩
  intro x hx y hy
  rcases List.mem_cons.mp hy with rfl | hy
  · exact hsmaller x hx
  · exact Nat.lt_trans (hsmaller x hx) (hgreater y hy)

/-- Between two ordered and balanced trees, of which one is two levels higher at most, a pivot above
all handles of the left one and below all of the right one is rebalanced to an ordered and balanced
tree. From left to right it holds what the left one held, the pivot and what the right one held, with
all records and versions as they were, and it is as high as the higher one or one level more. Whatever
is lifted on the way is there to be lifted. -/
theorem rebalance_repairs (pivot : Cell) (hleft : left.Balanced) (hright : right.Balanced)
    (orderedLeft : left.Ordered) (orderedRight : right.Ordered)
    (smaller : ∀ c ∈ left.cells, c.handle < pivot.handle)
    (greater : ∀ c ∈ right.cells, pivot.handle < c.handle) (near : Within 2 left right) :
    let made := rebalance pivot left right
    made.Balanced ∧ made.Ordered ∧
    made.bindings = left.bindings ++ (pivot.handle, pivot.record, pivot.version) :: right.bindings ∧
    (made.height = max left.height right.height ∨
      made.height = max left.height right.height + 1) ∧
    Rotation pivot left right made := by
  intro made
  obtain ⟨⟨hmade, hlow, hhigh⟩, -⟩ := hleft.rebalance pivot hright near
  refine ⟨hmade, ordered_rebalance orderedLeft orderedRight smaller greater,
    bindings_rebalance pivot left right, ?_, rotation_rebalance pivot left right⟩
  rw [hmade.height_eq, hleft.height_eq, hright.height_eq]
  omega

end Tree

end

namespace Tree

/-- The higher child is level, which leaves the tree one level higher than that child was. -/
theorem rebalance_repairs_level :
    let record (h : Nat) := (PendingRecord.ofObject ⟨h⟩ (.counter 1)).stamp 7
    let cell (h height : Nat) : Cell := ⟨⟨h⟩, record h, 7, height⟩
    let leaf (h : Nat) := node (cell h 1) empty empty
    let right := node (cell 3 2) (leaf 2) (leaf 4)
    let made := rebalance (cell 1 9) empty right
    (right.Balanced ∧ right.Ordered ∧ (∀ c ∈ right.cells, (cell 1 9).handle < c.handle) ∧
      Within 2 empty right) ∧
    tilt (leaf 2) (leaf 4) = 0 ∧ made.Balanced ∧ made.Ordered ∧ made.height = right.height + 1 := by
  intro record cell leaf right made
  have hleaf : ∀ h, (leaf h).Balanced := fun h => .node .empty .empty rfl ⟨by decide, by decide⟩
  have hright : right.Balanced := .node (hleaf 2) (hleaf 4) rfl ⟨by decide, by decide⟩
  have ordered : right.Ordered := ordered_iff.mpr (by decide)
  have greater : ∀ c ∈ right.cells, (cell 1 9).handle < c.handle := by decide
  have near : Within 2 empty right := ⟨by decide, by decide⟩
  obtain ⟨hmade, hordered, -⟩ :=
    rebalance_repairs (cell 1 9) .empty hright ordered_empty ordered nofun greater near
  exact ⟨⟨hright, ordered, greater, near⟩, rfl, hmade, hordered, rfl⟩

end Tree

end TransactionalHeap
