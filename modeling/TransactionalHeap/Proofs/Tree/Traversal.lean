import TransactionalHeap.Proofs.Tree.InOrder

/-!
# What an iteration gives out

A tree of any shape is given out node by node from left to right: one node with each call, every node
once, and nothing after the last one (`HeapTree.iteration_in_order`). Nodes of one tree may hold the
same, so they are told apart by the paths that lead to them.
-/
namespace TransactionalHeap

variable [Transactables]

namespace Iteration

/-- What a call gives after `n` earlier ones. At its end an iteration stays as it is. -/
def answer : Nat → Iteration → Option Cell
  | 0, it => it.next.map Prod.fst
  | n + 1, it =>
    match it.next with
    | none => answer n it
    | some (_, later) => answer n later

/-- With each call the cells that are still to be given out lose the first one. -/
theorem answer_eq (n : Nat) (it : Iteration) : it.answer n = (pending it.stack)[n]? := by
  induction n generalizing it with
  | zero =>
    obtain ⟨_ | ⟨top, rest⟩⟩ := it
    · rfl
    · rfl
  | succ n ih =>
    obtain ⟨_ | ⟨top, rest⟩⟩ := it
    · exact ih ⟨[]⟩
    · have hlater := ih ⟨pushSpine top.right rest⟩
      rw [pending_pushSpine] at hlater
      exact hlater

end Iteration

namespace Tree

variable {t : Tree}

/-! ## Nodes and their places -/

/-- Which child to go to. -/
inductive Side where
  | left
  | right
  deriving DecidableEq, Repr

/-- The cell of the node that a path from the root leads to. -/
def cellAt : Tree → List Side → Option Cell
  | empty, _ => none
  | node cell _ _, [] => some cell
  | node _ left _, .left :: path => left.cellAt path
  | node _ _ right, .right :: path => right.cellAt path

/-- The paths to the nodes, from left to right. -/
def places : Tree → List (List Side)
  | empty => []
  | node _ left right => left.places.map (.left :: ·) ++ [] :: right.places.map (.right :: ·)

theorem nodup_places (t : Tree) : t.places.Nodup := by
  induction t with
  | empty => exact List.nodup_nil
  | node cell left right ihl ihr =>
    have hleft := ihl.map (List.cons_injective (a := Side.left))
    have hright := ihr.map (List.cons_injective (a := Side.right))
    rw [places, List.nodup_append, List.nodup_cons]
    refine ⟨hleft, ⟨by simp, hright⟩, ?_⟩
    intro a ha b hb hsame
    obtain ⟨path, -, rfl⟩ := List.mem_map.mp ha
    subst hsame
    simp at hb

/-- The places are those to which a path leads. -/
theorem mem_places_iff {path : List Side} : path ∈ t.places ↔ (t.cellAt path).isSome := by
  induction t generalizing path with
  | empty => simp [places, cellAt]
  | node cell left right ihl ihr =>
    rw [places, List.mem_append, List.mem_cons, List.mem_map, List.mem_map]
    cases path with
    | nil => simp [cellAt]
    | cons side path => cases side <;> simp [cellAt, ihl, ihr]

theorem map_cellAt_places (t : Tree) : t.places.map t.cellAt = t.cells.map some := by
  induction t with
  | empty => rfl
  | node cell left right ihl ihr =>
    rw [places, cells, List.map_append, List.map_append, List.map_cons, List.map_cons, List.map_map,
      List.map_map, ← ihl, ← ihr]
    rfl

/-! ## Nodes and their handles -/

/-- A search finds the one node of a handle, which the order makes unique. -/
theorem find_eq_some_iff {h : Handle} {cell : Cell} (ordered : t.Ordered) :
    find h t = some cell ↔ cell ∈ t.cells ∧ cell.handle = h := by
  refine ⟨mem_cells_of_find, fun ⟨hcell, hhandle⟩ => ?_⟩
  cases hfound : find h t with
  | none =>
    have hmem : h ∈ t.handles := hhandle ▸ List.mem_map_of_mem hcell
    exact absurd hmem ((find_eq_none_iff ordered).mp hfound)
  | some other =>
    obtain ⟨hother, hsame⟩ := mem_cells_of_find hfound
    rw [List.inj_on_of_nodup_map ordered.nodup hother hcell (hsame.trans hhandle.symm)]

end Tree

namespace HeapTree

/-- An iteration over any tree gives out the cells from left to right, one with each call, and then
nothing any more. Every node is given out once. Over a tree that insertions made, the handles ascend, as
many cells are given out as the tree is long, and among them is the one that is found for a handle. -/
theorem iteration_in_order :
    (∀ t : HeapTree,
      t.iterate.drain = t.root.cells ∧ (∀ n, t.iterate.answer n = t.root.cells[n]?) ∧
      t.root.places.Nodup ∧ (∀ path, path ∈ t.root.places ↔ (t.root.cellAt path).isSome) ∧
      t.iterate.drain.map some = t.root.places.map t.root.cellAt) ∧
    ∀ records : List Record,
      let t := (∅ : HeapTree).insertAll records
      t.iterate.drain.Pairwise (fun a b => a.handle < b.handle) ∧
      t.iterate.drain.length = t.length ∧
      ∀ h cell, t.find? h = some cell ↔ cell ∈ t.iterate.drain ∧ cell.handle = h := by
  refine ⟨fun t => ?_, fun records => ?_⟩
  · have hanswer : ∀ n, t.iterate.answer n = t.root.cells[n]? := fun n => by
      rw [Iteration.answer_eq, iterate, Iteration.pending_pushSpine, Iteration.pending, List.append_nil]
    refine ⟨drain_iterate t, hanswer, Tree.nodup_places t.root, fun path => Tree.mem_places_iff, ?_⟩
    rw [drain_iterate, Tree.map_cellAt_places]
  · intro t
    have hsound : t.Sound := sound_empty.insertAll records
    rw [drain_iterate]
    refine ⟨List.pairwise_map.mp (Tree.ordered_iff.mp hsound.ordered), ?_, fun h cell =>
      Tree.find_eq_some_iff hsound.ordered⟩
    rw [Tree.length_cells, hsound.counted]

end HeapTree

end TransactionalHeap
