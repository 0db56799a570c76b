import Mathlib.Data.Finset.Card
import TransactionalHeap.Proofs.Tree.Balance
import TransactionalHeap.Proofs.Tree.Bindings
import TransactionalHeap.Tree.Validation

/-!
# Trees that insertions make

Whatever records are inserted into an empty tree, in whatever order and however often for one handle:
the tree is ordered and balanced at every node, the check finds nothing wrong with it, a search finds
the last record of a handle, the length counts the handles, and a handle that is there already keeps
its node in its place (`HeapTree.insertAll_maps`).
-/
namespace TransactionalHeap

theorem Handle.eq_or_lt (a b : Handle) : a = b ∨ a < b ∨ b < a := by
  rcases Nat.lt_trichotomy a.id b.id with hlt | heq | hgt
  · exact .inr (.inl hlt)
  · exact .inl (Ranked.rank_injective heq)
  · exact .inr (.inr hgt)

variable [Transactables]

namespace Tree

variable {cell : Cell} {left right t : Tree} {record : Record}

/-- At every node: all handles to the left are smaller and all to the right are greater, the cached
height is the real one, the children's heights differ by at most one, and handle and version are those
of the record. -/
inductive Avl : Tree → Prop
  | empty : Avl empty
  | node {cell : Cell} {left right : Tree} (isLeft : Avl left) (isRight : Avl right)
      (smaller : ∀ c ∈ left.cells, c.handle < cell.handle)
      (greater : ∀ c ∈ right.cells, cell.handle < c.handle)
      (cached : cell.height = 1 + max left.levels right.levels) (even : Within 1 left right)
      (handle : cell.handle = cell.record.handle) (version : cell.version = cell.record.version) :
      Avl (node cell left right)

/-- The handles from left to right. -/
def handles (t : Tree) : List Handle := t.cells.map Cell.handle

@[simp] theorem handles_node (cell : Cell) (left right : Tree) :
    (node cell left right).handles = left.handles ++ cell.handle :: right.handles := by
  simp [handles, cells]

theorem bindings_eq_map (t : Tree) :
    t.bindings = t.cells.map fun cell => (cell.handle, cell.record, cell.version) := by
  induction t with
  | empty => rfl
  | node cell left right ihl ihr => simp [bindings, cells, ihl, ihr]

theorem mem_bindings (hcell : cell ∈ t.cells) :
    (cell.handle, cell.record, cell.version) ∈ t.bindings := by
  rw [bindings_eq_map]
  exact List.mem_map_of_mem hcell

theorem ordered_iff : t.Ordered ↔ t.handles.Pairwise (· < ·) := by
  rw [Ordered, Ascending, bindings_eq_map, List.pairwise_map, handles, List.pairwise_map]
  exact Iff.rfl

/-- No two nodes of an ordered tree have one handle. -/
theorem Ordered.nodup (ordered : t.Ordered) : t.handles.Nodup :=
  (ordered_iff.mp ordered).imp fun hlt hsame => Nat.ne_of_lt hlt (congrArg rank hsame)

/-- A search finds just the handles that are there. -/
theorem find_eq_none_iff {h : Handle} (ordered : t.Ordered) : find h t = none ↔ h ∉ t.handles := by
  constructor
  · intro hnone hmem
    obtain ⟨cell, hcell, rfl⟩ := List.mem_map.mp hmem
    have hlookup := SortedMap.lookup_of_mem ordered (mem_bindings hcell)
    rw [← find_eq_lookup _ ordered, hnone] at hlookup
    cases hlookup
  · intro habsent
    cases hfound : find h t with
    | none => rfl
    | some cell =>
      obtain ⟨hcell, rfl⟩ := mem_cells_of_find hfound
      exact absurd (List.mem_map_of_mem hcell) habsent

/-! ## Where an insertion goes -/

theorem insert_of_eq {version : Version} (heq : record.handle = cell.handle) :
    (node cell left right).insert record version =
      (join { cell with record, version } left right, false) :=
  if_pos heq

theorem insert_of_lt {version : Version} (hlt : record.handle < cell.handle) :
    (node cell left right).insert record version =
      (rebalance cell (left.insert record version).1 right, (left.insert record version).2) := by
  have hne : record.handle ≠ cell.handle := fun heq => Nat.ne_of_lt hlt (congrArg rank heq)
  rw [insert, if_neg hne, if_pos hlt]

theorem insert_of_gt {version : Version} (hgt : cell.handle < record.handle) :
    (node cell left right).insert record version =
      (rebalance cell left (right.insert record version).1, (right.insert record version).2) := by
  have hne : record.handle ≠ cell.handle := fun heq => Nat.ne_of_gt hgt (congrArg rank heq)
  have hle : ¬ record.handle < cell.handle := Nat.lt_asymm hgt
  rw [insert, if_neg hne, if_neg hle]

/-! ## Nodes and their records -/

/-- Every node has the handle and the version of its record. -/
def Labelled (t : Tree) : Prop :=
  ∀ cell ∈ t.cells, cell.handle = cell.record.handle ∧ cell.version = cell.record.version

theorem Labelled.insert (ordered : t.Ordered) (labelled : t.Labelled) (record : Record) :
    (t.insert record record.version).1.Labelled := by
  intro cell hcell
  have hmem := mem_bindings hcell
  rw [bindings_insert record record.version ordered] at hmem
  rcases SortedMap.mem_place hmem with hnew | hold
  · obtain ⟨hhandle, hrecord, hversion⟩ : cell.handle = record.handle ∧ cell.record = record ∧
        cell.version = record.version := by simpa using hnew
    rw [hhandle, hversion, hrecord]
    exact ⟨rfl, rfl⟩
  · rw [bindings_eq_map] at hold
    obtain ⟨old, hold, hsame⟩ := List.mem_map.mp hold
    obtain ⟨hhandle, hrecord, hversion⟩ : old.handle = cell.handle ∧ old.record = cell.record ∧
        old.version = cell.version := by simpa using hsame
    rw [← hhandle, ← hrecord, ← hversion]
    exact labelled old hold

/-- The three conditions, seen from each node. -/
theorem avl_of_balanced (balanced : t.Balanced) (ordered : t.Ordered) (labelled : t.Labelled) :
    t.Avl := by
  induction balanced with
  | empty => exact .empty
  | @node cell left right _ _ cached even ihl ihr =>
    have hleft := ihl ordered.left fun c hc => labelled c (by simp [cells, hc])
    have hright := ihr ordered.right fun c hc => labelled c (by simp [cells, hc])
    obtain ⟨hhandle, hversion⟩ := labelled cell (by simp [cells])
    exact .node hleft hright (fun c hc => ordered.left_lt _ (mem_bindings hc))
      (fun c hc => ordered.lt_right _ (mem_bindings hc)) cached even hhandle hversion

/-! ## The number of nodes -/

theorem length_bindings (t : Tree) : t.bindings.length = t.size := by
  rw [bindings_eq_map, List.length_map, length_cells]

theorem size_rebalance (pivot : Cell) (left right : Tree) :
    (rebalance pivot left right).size = left.size + 1 + right.size := by
  rw [← length_bindings, bindings_rebalance, List.length_append, List.length_cons, length_bindings,
    length_bindings]
  omega

/-- An insertion says whether it has added a node. -/
theorem size_insert (record : Record) (version : Version) (t : Tree) :
    (t.insert record version).1.size = t.size + (t.insert record version).2.toNat := by
  induction t with
  | empty => rfl
  | node cell left right ihl ihr =>
    rcases Handle.eq_or_lt record.handle cell.handle with heq | hlt | hgt
    · rw [insert_of_eq heq]
      rfl
    · simp only [insert_of_lt hlt, size_rebalance, ihl, size]
      omega
    · simp only [insert_of_gt hgt, size_rebalance, ihr, size]
      omega

/-! ## Inserting over a record -/

/-- The tree with another record in the node of its handle. The shape stays. -/
def overwrite (record : Record) : Tree → Tree
  | empty => empty
  | node cell left right =>
    node (if cell.handle = record.handle then { cell with record, version := record.version } else cell)
      (left.overwrite record) (right.overwrite record)

theorem overwrite_of_absent (absent : record.handle ∉ t.handles) : t.overwrite record = t := by
  induction t with
  | empty => rfl
  | node cell left right ihl ihr =>
    rw [handles_node, List.mem_append, List.mem_cons, not_or, not_or] at absent
    obtain ⟨hleft, hroot, hright⟩ := absent
    rw [overwrite, ihl hleft, ihr hright, if_neg (Ne.symm hroot)]

theorem height_overwrite (record : Record) (t : Tree) : (t.overwrite record).height = t.height := by
  cases t with
  | empty => rfl
  | node cell left right =>
    simp only [overwrite, height]
    split <;> rfl

/-- A node stays as it is while its children are as high as they were. -/
theorem Balanced.rebalance_eq_node (balanced : Balanced (Tree.node cell left right)) (l r : Tree)
    (hleft : l.height = left.height) (hright : r.height = right.height) :
    Tree.rebalance cell l r = Tree.node cell l r := by
  cases balanced with
  | node isLeft isRight cached even =>
    have htilt : tilt l r = (right.levels : Int) - left.levels := by
      rw [tilt, hleft, hright, isLeft.height_eq, isRight.height_eq]
    obtain ⟨hle, hge⟩ := even
    rw [rebalance_of_even (by omega) (by omega), Tree.join, hleft, hright, isLeft.height_eq,
      isRight.height_eq, ← cached]

/-- Where a handle of an ordered tree is to be found, and where it is not. -/
theorem Ordered.mem_node {h : Handle} (ordered : (Tree.node cell left right).Ordered)
    (mem : h ∈ (Tree.node cell left right).handles) :
    (h = cell.handle ∧ h ∉ left.handles ∧ h ∉ right.handles) ∨
    (h < cell.handle ∧ h ∈ left.handles ∧ h ∉ right.handles) ∨
    (cell.handle < h ∧ h ∉ left.handles ∧ h ∈ right.handles) := by
  have hascending := ordered_iff.mp ordered
  rw [handles_node] at hascending mem
  obtain ⟨-, hrest, hacross⟩ := List.pairwise_append.mp hascending
  have hsmaller : ∀ other ∈ left.handles, other < cell.handle := fun other hother =>
    hacross other hother _ List.mem_cons_self
  have hgreater : ∀ other ∈ right.handles, cell.handle < other := (List.pairwise_cons.mp hrest).1
  rcases List.mem_append.mp mem with hleft | hmem
  · have hlt := hsmaller h hleft
    exact .inr (.inl ⟨hlt, hleft, fun hright => Nat.lt_asymm hlt (hgreater h hright)⟩)
  · rcases List.mem_cons.mp hmem with rfl | hright
    · exact .inl ⟨rfl, fun hleft => Nat.lt_irrefl _ (hsmaller _ hleft),
        fun hright => Nat.lt_irrefl _ (hgreater _ hright)⟩
    · have hgt := hgreater h hright
      exact .inr (.inr ⟨hgt, fun hleft => Nat.lt_asymm hgt (hsmaller h hleft), hright⟩)

/-- Inserting where the handle is there already: everything on the way is rebuilt as it was, for the
changed child is as high as before. -/
theorem insert_of_mem (balanced : t.Balanced) (ordered : t.Ordered)
    (mem : record.handle ∈ t.handles) :
    t.insert record record.version = (t.overwrite record, false) := by
  induction t with
  | empty => cases mem
  | node cell left right ihl ihr =>
    have hnode := balanced.rebalance_eq_node
    cases balanced with
    | node isLeft isRight cached even =>
      rcases ordered.mem_node mem with
        ⟨heq, hleft, hright⟩ | ⟨hlt, hleft, hright⟩ | ⟨hgt, hleft, hright⟩
      · rw [insert_of_eq heq, overwrite, overwrite_of_absent hleft, overwrite_of_absent hright,
          if_pos heq.symm, join, isLeft.height_eq, isRight.height_eq, ← cached]
      · have hne : cell.handle ≠ record.handle := fun heq => Nat.ne_of_gt hlt (congrArg rank heq)
        rw [insert_of_lt hlt, ihl isLeft ordered.left hleft, overwrite, overwrite_of_absent hright,
          if_neg hne, hnode _ _ (height_overwrite record left) rfl]
      · have hne : cell.handle ≠ record.handle := fun heq => Nat.ne_of_lt hgt (congrArg rank heq)
        rw [insert_of_gt hgt, ihr isRight ordered.right hright, overwrite, overwrite_of_absent hleft,
          if_neg hne, hnode _ _ rfl (height_overwrite record right)]

/-! ## The check -/

/-- Both subtrees have been walked. What is left to be seen is the cached height and the balance. -/
def checkHeights (cell : Cell) (a b : Nat) (after : Walk) : Except Defect (Nat × Walk) :=
  if cell.height ≠ 1 + max a b then .error (.wrongHeight cell.handle cell.height (1 + max a b))
  else if ((b : Int) - a).natAbs > 1 then .error (.outOfBalance cell.handle a b)
  else .ok (1 + max a b, after)

theorem checkHeights_of_fit {a b : Nat} {after : Walk} (cached : cell.height = 1 + max a b)
    (even : ((b : Int) - a).natAbs ≤ 1) : checkHeights cell a b after = .ok (1 + max a b, after) := by
  rw [checkHeights, if_neg (not_not.mpr cached), if_neg (Nat.not_lt_of_le even)]

/-- The check at a node whose handle comes after what was seen to its left. -/
theorem check_of_order {w seen : Walk} {a : Nat} (hleft : left.check w = .ok (a, seen))
    (inOrder : ∀ p, seen.previous = some p → ¬ cell.handle ≤ p) :
    (node cell left right).check w =
      (right.check ⟨some cell.handle, seen.count + 1⟩).bind fun found =>
        checkHeights cell a found.1 found.2 := by
  rw [check, hleft]
  cases last : seen.previous with
  | none =>
    simp only [bind, Except.bind, last]
    rfl
  | some p =>
    simp only [bind, Except.bind, last, if_neg (inOrder p last)]
    rfl

/-- The check goes through a balanced tree whose handles ascend, also from the one seen before, and
measures it. -/
theorem check_eq (balanced : t.Balanced) {w : Walk}
    (ascending : (w.previous.toList ++ t.handles).Pairwise (· < ·)) :
    t.check w =
      .ok (t.levels, ⟨(w.previous.toList ++ t.handles).getLast?, w.count + t.size⟩) := by
  induction balanced generalizing w with
  | empty =>
    obtain ⟨previous, count⟩ := w
    cases previous <;> rfl
  | @node cell left right isLeft isRight cached even ihl ihr =>
    rw [handles_node, ← List.append_assoc] at ascending
    obtain ⟨hbefore, hrest, hacross⟩ := List.pairwise_append.mp ascending
    have inOrder : ∀ p, (w.previous.toList ++ left.handles).getLast? = some p → ¬ cell.handle ≤ p :=
      fun p hp => Nat.not_le_of_lt (hacross p (List.mem_of_getLast? hp) _ List.mem_cons_self)
    have hafter := ihr (w := ⟨some cell.handle, w.count + left.size + 1⟩) hrest
    obtain ⟨hle, hge⟩ := even
    rw [check_of_order (ihl hbefore) inOrder, hafter, Except.bind,
      checkHeights_of_fit cached (by omega), handles_node, ← List.append_assoc,
      List.getLast?_append_cons, size]
    simp only [levels_node, Option.toList_some, List.singleton_append, Nat.add_assoc]

end Tree

namespace HeapTree

variable {t : HeapTree}

/-- The check finds nothing wrong with a balanced tree whose handles ascend and are counted. -/
theorem validate_eq_ok (balanced : t.root.Balanced) (ordered : t.root.Ordered)
    (counted : t.length = t.root.size) : t.validate = .ok () := by
  have hcheck := Tree.check_eq (w := {}) balanced (Tree.ordered_iff.mp ordered)
  simp only [validate, hcheck, Nat.zero_add, counted, if_true]

/-! ## Any number of insertions -/

/-- What insertions keep of a tree. -/
structure Sound (t : HeapTree) : Prop where
  balanced : t.root.Balanced
  ordered : t.root.Ordered
  labelled : t.root.Labelled
  counted : t.length = t.root.size

theorem sound_empty : Sound ∅ := ⟨.empty, Tree.ordered_empty, nofun, rfl⟩

theorem Sound.insert (sound : t.Sound) (record : Record) : (t.insert record).Sound where
  balanced := (sound.balanced.insert record record.version).balanced
  ordered := sound.ordered.insert record record.version
  labelled := sound.labelled.insert sound.ordered record
  counted := by
    have hsize := Tree.size_insert record record.version t.root
    simp only [HeapTree.insert, hsize, sound.counted]

theorem Sound.insertAll (sound : t.Sound) (records : List Record) : (t.insertAll records).Sound := by
  induction records generalizing t with
  | nil => exact sound
  | cons record later ih => exact ih (sound.insert record)

/-- A sound tree has as many nodes as it has handles. -/
theorem Sound.length_eq_card (sound : t.Sound) : t.length = t.root.handles.toFinset.card := by
  rw [List.toFinset_card_of_nodup sound.ordered.nodup, Tree.handles, List.length_map,
    Tree.length_cells, sound.counted]

/-- A search finds the last record of the handle. -/
theorem find?_insertAll (records : List Record) (h : Handle) :
    (((∅ : HeapTree).insertAll records).find? h).map Cell.record =
      (records.filter (·.handle = h)).getLast? := by
  have hstored := stored_insertAll (t := (∅ : HeapTree)) records h Tree.ordered_empty
  have hnothing : (∅ : HeapTree).stored h = none := rfl
  have hrecord := congrArg (Option.map Prod.fst) hstored
  rw [hnothing, Option.or_none, Option.map_map] at hrecord
  rw [stored, Option.map_map] at hrecord
  refine hrecord.trans ?_
  cases (records.filter (·.handle = h)).getLast? <;> rfl

/-- The handles of the tree are those of the records. -/
theorem mem_handles_insertAll (records : List Record) (h : Handle) :
    h ∈ ((∅ : HeapTree).insertAll records).root.handles ↔ ∃ r ∈ records, r.handle = h := by
  have hsound := sound_empty.insertAll records
  have hfind := find?_insertAll records h
  rw [← not_iff_not, ← Tree.find_eq_none_iff hsound.ordered]
  change HeapTree.find? _ h = none ↔ _
  rw [← Option.map_eq_none_iff (f := Cell.record), hfind, List.getLast?_eq_none_iff,
    List.filter_eq_nil_iff]
  simp

/-- Inserting records into an empty tree gives a balanced map: sound at every node, and checked so,
with the last record of every handle, and as many nodes as there are handles. Inserting over a handle
that is there changes what its node holds, and nothing else. -/
theorem insertAll_maps (records : List Record) :
    let t := (∅ : HeapTree).insertAll records
    t.root.Avl ∧ t.validate = .ok () ∧
    (∀ h, (t.find? h).map Cell.record = (records.filter (·.handle = h)).getLast?) ∧
    (∀ h, (∀ r ∈ records, r.handle ≠ h) → t.find? h = none) ∧
    t.length = (records.map Record.handle).toFinset.card ∧
    ∀ record : Record, t.find? record.handle ≠ none →
      t.insert record = ⟨t.root.overwrite record, t.length⟩ := by
  intro t
  have hsound : t.Sound := sound_empty.insertAll records
  refine ⟨Tree.avl_of_balanced hsound.balanced hsound.ordered hsound.labelled,
    validate_eq_ok hsound.balanced hsound.ordered hsound.counted, find?_insertAll records,
    fun h hnever => ?_, ?_, fun record hfound => ?_⟩
  · refine (Tree.find_eq_none_iff hsound.ordered).mpr fun hmem => ?_
    obtain ⟨r, hr, rfl⟩ := (mem_handles_insertAll records h).mp hmem
    exact hnever r hr rfl
  · rw [hsound.length_eq_card]
    congr 1
    ext h
    rw [List.mem_toFinset, List.mem_toFinset, mem_handles_insertAll, List.mem_map]
  · have hmem : record.handle ∈ t.root.handles := by
      by_contra habsent
      exact hfound ((Tree.find_eq_none_iff hsound.ordered).mpr habsent)
    rw [HeapTree.insert, Tree.insert_of_mem hsound.balanced hsound.ordered hmem]
    rfl

end HeapTree

end TransactionalHeap
