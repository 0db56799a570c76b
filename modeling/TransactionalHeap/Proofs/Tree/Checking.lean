import TransactionalHeap.Object.Stock
import TransactionalHeap.Proofs.Tree.Insertions

/-!
# What the check tells

The check is run on any tree at all: handles in any order, heights and lengths that were never true.
It goes through just the trees that are ordered, balanced and counted, and where it stops, the defect
that it reports is there to be seen (`HeapTree.validate_decides`). It stops at the first one, so what
it has measured until then is right.
-/
namespace TransactionalHeap

section

variable [Transactables]

namespace Tree

variable {cell : Cell} {left right t : Tree}

/-- The nodes from left to right, each as its cell and its two children. -/
def nodes : Tree → List (Cell × Tree × Tree)
  | empty => []
  | node cell left right => left.nodes ++ (cell, left, right) :: right.nodes

theorem mem_nodes_node {n : Cell × Tree × Tree} :
    n ∈ (node cell left right).nodes ↔ n ∈ left.nodes ∨ n = (cell, left, right) ∨ n ∈ right.nodes := by
  rw [nodes, List.mem_append, List.mem_cons]

/-- Balance is a matter of every single node. -/
theorem balanced_iff : t.Balanced ↔ ∀ cell left right, (cell, left, right) ∈ t.nodes →
    cell.height = 1 + max left.levels right.levels ∧ Within 1 left right := by
  constructor
  · intro balanced
    induction balanced with
    | empty => nofun
    | node _ _ cached even ihl ihr =>
      intro c l r hmem
      rcases mem_nodes_node.mp hmem with hleft | hroot | hright
      · exact ihl c l r hleft
      · cases hroot
        exact ⟨cached, even⟩
      · exact ihr c l r hright
  · intro fit
    induction t with
    | empty => exact .empty
    | node cell left right ihl ihr =>
      obtain ⟨cached, even⟩ := fit cell left right (mem_nodes_node.mpr (.inr (.inl rfl)))
      have hleft := ihl fun c l r hmem => fit c l r (mem_nodes_node.mpr (.inl hmem))
      have hright := ihr fun c l r hmem => fit c l r (mem_nodes_node.mpr (.inr (.inr hmem)))
      exact .node hleft hright cached even

/-! ## How the check of a node comes out -/

theorem check_of_left_fault {w : Walk} {defect : Defect} (hleft : left.check w = .error defect) :
    (node cell left right).check w = .error defect := by
  rw [check, hleft]
  rfl

theorem check_of_disorder {w seen : Walk} {a : Nat} {p : Handle} (hleft : left.check w = .ok (a, seen))
    (last : seen.previous = some p) (behind : cell.handle ≤ p) :
    (node cell left right).check w = .error (.orderViolated p cell.handle) := by
  simp only [check, hleft, bind, Except.bind, last, if_pos behind]
  rfl

/-! ## Where the walk stops -/

/-- The defect is there to be seen in the tree, which comes after the given handles. -/
inductive Shows (before : List Handle) (t : Tree) : Defect → Prop
  | order {a b : Handle} (behind : b ≤ a) (next : [a, b] <:+: before ++ t.handles) :
      Shows before t (.orderViolated a b)
  | height {cell : Cell} {left right : Tree} (isNode : (cell, left, right) ∈ t.nodes)
      (wrong : cell.height ≠ 1 + max left.levels right.levels) :
      Shows before t (.wrongHeight cell.handle cell.height (1 + max left.levels right.levels))
  | balance {cell : Cell} {left right : Tree} (isNode : (cell, left, right) ∈ t.nodes)
      (uneven : ¬ Within 1 left right) :
      Shows before t (.outOfBalance cell.handle left.levels right.levels)

variable {before before' : List Handle} {defect : Defect}

/-- What a part of a tree shows, the whole shows. -/
theorem Shows.lift {part : Tree} (shows : part.Shows before' defect)
    (hnodes : ∀ n ∈ part.nodes, n ∈ t.nodes)
    (hhandles : before' ++ part.handles <:+: before ++ t.handles) : t.Shows before defect := by
  cases shows with
  | order behind next => exact .order behind (next.trans hhandles)
  | height isNode wrong => exact .height (hnodes _ isNode) wrong
  | balance isNode uneven => exact .balance (hnodes _ isNode) uneven

theorem Shows.of_left (shows : left.Shows before defect) :
    (node cell left right).Shows before defect := by
  refine shows.lift (fun n hmem => mem_nodes_node.mpr (.inl hmem)) ?_
  rw [handles_node, ← List.append_assoc]
  exact (List.prefix_append _ _).isInfix

theorem Shows.of_right (shows : right.Shows [cell.handle] defect) :
    (node cell left right).Shows before defect := by
  refine shows.lift (fun n hmem => mem_nodes_node.mpr (.inr (.inr hmem))) ?_
  rw [handles_node, ← List.append_assoc]
  exact (List.suffix_append _ _).isInfix

/-- Either the heights of the two subtrees fit the node, or it is told what does not. -/
theorem checkHeights_cases (before : List Handle) (cell : Cell) (left right : Tree) (after : Walk) :
    (cell.height = 1 + max left.levels right.levels ∧ Within 1 left right) ∨
    ∃ defect, checkHeights cell left.levels right.levels after = .error defect ∧
      (node cell left right).Shows before defect := by
  have isNode : (cell, left, right) ∈ (node cell left right).nodes :=
    mem_nodes_node.mpr (.inr (.inl rfl))
  by_cases cached : cell.height = 1 + max left.levels right.levels
  · by_cases even : Within 1 left right
    · exact .inl ⟨cached, even⟩
    · have uneven : ((right.levels : Int) - left.levels).natAbs > 1 := by
        unfold Within at even
        omega
      refine .inr ⟨_, ?_, .balance isNode even⟩
      rw [checkHeights, if_neg (not_not.mpr cached), if_pos uneven]
  · exact .inr ⟨_, if_pos cached, .height isNode cached⟩

omit [Transactables] in
/-- A handle that comes after the last of an ascending list comes after all of them. -/
theorem lt_of_lt_last {handles : List Handle} {h : Handle} (ascending : handles.Pairwise (· < ·))
    (last : ∀ p, handles.getLast? = some p → ¬ h ≤ p) : ∀ other ∈ handles, other < h := by
  rcases List.eq_nil_or_concat' handles with rfl | ⟨earlier, p, rfl⟩
  · nofun
  · have hlast : p < h := Nat.lt_of_not_le (last p List.getLast?_concat)
    intro other hmem
    rcases List.mem_append.mp hmem with hearlier | hp
    · have hlt := (List.pairwise_append.mp ascending).2.2 other hearlier p List.mem_cons_self
      exact Nat.lt_trans hlt hlast
    · rw [List.mem_singleton.mp hp]
      exact hlast

/-- A node whose handle is not above the last one before it is out of order. -/
theorem shows_disorder {p : Handle} (last : (before ++ left.handles).getLast? = some p)
    (behind : cell.handle ≤ p) : (node cell left right).Shows before (.orderViolated p cell.handle) := by
  obtain ⟨earlier, hearlier⟩ := List.getLast?_eq_some_iff.mp last
  refine .order behind ⟨earlier, right.handles, ?_⟩
  rw [handles_node, ← List.append_assoc, hearlier]
  simp

/-- A node whose handle is above the last one before it, and below all to its right, is in order. -/
theorem ascending_node (hleft : (before ++ left.handles).Pairwise (· < ·))
    (inOrder : ∀ p, (before ++ left.handles).getLast? = some p → ¬ cell.handle ≤ p)
    (hright : (cell.handle :: right.handles).Pairwise (· < ·)) :
    (before ++ (node cell left right).handles).Pairwise (· < ·) := by
  rw [handles_node, ← List.append_assoc]
  refine List.pairwise_append.mpr ⟨hleft, hright, fun other hother h hmem => ?_⟩
  have hlt := lt_of_lt_last hleft inOrder other hother
  rcases List.mem_cons.mp hmem with rfl | hlater
  · exact hlt
  · exact Nat.lt_trans hlt ((List.pairwise_cons.mp hright).1 h hlater)

/-- The check finds the tree balanced and its handles ascending, also from the one seen before, or it
reports a defect that is there. -/
theorem check_cases (t : Tree) (w : Walk) :
    (t.Balanced ∧ (w.previous.toList ++ t.handles).Pairwise (· < ·)) ∨
    ∃ defect, t.check w = .error defect ∧ t.Shows w.previous.toList defect := by
  induction t generalizing w with
  | empty =>
    refine .inl ⟨.empty, ?_⟩
    cases w.previous <;> simp [handles, cells]
  | node cell left right ihl ihr =>
    rcases ihl w with ⟨isLeft, hbefore⟩ | ⟨defect, hleft, shows⟩
    · -- nothing is wrong to the left, so the walk stands at the last handle before the node
      have hleft := check_eq isLeft hbefore
      by_cases disorder : ∃ p, (w.previous.toList ++ left.handles).getLast? = some p ∧ cell.handle ≤ p
      · obtain ⟨p, last, behind⟩ := disorder
        exact .inr ⟨_, check_of_disorder hleft last behind, shows_disorder last behind⟩
      have inOrder : ∀ p, (w.previous.toList ++ left.handles).getLast? = some p → ¬ cell.handle ≤ p :=
        fun p last behind => disorder ⟨p, last, behind⟩
      have hnode : (node cell left right).check w = _ := check_of_order hleft inOrder
      rcases ihr ⟨some cell.handle, w.count + left.size + 1⟩ with
        ⟨isRight, hafter⟩ | ⟨defect, hright, shows⟩
      · rw [check_eq isRight hafter] at hnode
        rcases checkHeights_cases _ cell left right _ with ⟨cached, even⟩ | ⟨defect, hheights, shows⟩
        · exact .inl ⟨.node isLeft isRight cached even, ascending_node hbefore inOrder hafter⟩
        · exact .inr ⟨defect, hnode.trans hheights, shows⟩
      · rw [hright] at hnode
        exact .inr ⟨defect, hnode, shows.of_right⟩
    · exact .inr ⟨defect, check_of_left_fault hleft, shows.of_left⟩

end Tree

namespace HeapTree

/-- The defect is there to be seen in the tree or its length. -/
inductive Shows (t : HeapTree) : Defect → Prop
  | node {defect : Defect} (shows : t.root.Shows [] defect) : Shows t defect
  | length (wrong : t.length ≠ t.root.size) : Shows t (.wrongLength t.length t.root.size)

/-- The check finds a tree sound, or reports a defect that is there. -/
theorem validate_cases (t : HeapTree) :
    (t.validate = .ok () ∧ t.root.Balanced ∧ t.root.Ordered ∧ t.length = t.root.size) ∨
    ∃ defect, t.validate = .error (.internal defect) ∧ t.Shows defect := by
  rcases t.root.check_cases {} with ⟨balanced, ascending⟩ | ⟨defect, hcheck, shows⟩
  · have ordered := Tree.ordered_iff.mpr ascending
    by_cases counted : t.length = t.root.size
    · exact .inl ⟨validate_eq_ok balanced ordered counted, balanced, ordered, counted⟩
    · refine .inr ⟨_, ?_, .length counted⟩
      have hcheck := Tree.check_eq (w := {}) balanced ascending
      simp only [validate, hcheck, Nat.zero_add, if_neg (Ne.symm counted)]
  · refine .inr ⟨defect, ?_, .node shows⟩
    simp only [validate, hcheck]

/-- The check goes through a tree of any shape if and only if its handles strictly ascend from left to
right, every cached height is one more than the higher child's real height, the real heights of any two
siblings differ by at most one, and the length is the number of nodes. Otherwise it reports a defect of
the tree. -/
theorem validate_decides (t : HeapTree) :
    (t.validate = .ok () ↔
      t.root.handles.Pairwise (· < ·) ∧
      (∀ cell left right, (cell, left, right) ∈ t.root.nodes →
        cell.height = 1 + max left.levels right.levels) ∧
      (∀ cell left right, (cell, left, right) ∈ t.root.nodes →
        left.levels ≤ right.levels + 1 ∧ right.levels ≤ left.levels + 1) ∧
      t.length = t.root.size) ∧
    ∀ e, t.validate = .error e → ∃ defect, e = .internal defect ∧ t.Shows defect := by
  constructor
  · constructor
    · intro passed
      rcases t.validate_cases with ⟨-, balanced, ordered, counted⟩ | ⟨defect, hfault, -⟩
      · have fit := Tree.balanced_iff.mp balanced
        exact ⟨Tree.ordered_iff.mp ordered, fun c l r hmem => (fit c l r hmem).1,
          fun c l r hmem => (fit c l r hmem).2, counted⟩
      · rw [hfault] at passed
        cases passed
    · rintro ⟨ascending, cached, even, counted⟩
      have balanced := Tree.balanced_iff.mpr fun c l r hmem => ⟨cached c l r hmem, even c l r hmem⟩
      exact validate_eq_ok balanced (Tree.ordered_iff.mpr ascending) counted
  · intro e hfault
    rcases t.validate_cases with ⟨passed, -⟩ | ⟨defect, hdefect, shows⟩
    · rw [passed] at hfault
      cases hfault
    · rw [hdefect] at hfault
      cases hfault
      exact ⟨defect, rfl, shows⟩

end HeapTree

end

namespace HeapTree

/-- Every node fits its own children here, and yet a handle is in the wrong half of the tree. -/
example :
    let record (h : Nat) := (PendingRecord.ofObject ⟨h⟩ .unit).stamp 7
    let cell (h height : Nat) : Cell := ⟨⟨h⟩, record h, 7, height⟩
    let low := Tree.node (cell 3 2) .empty (.node (cell 7 1) .empty .empty)
    validate ⟨.node (cell 5 3) low (.node (cell 9 1) .empty .empty), 4⟩ =
      .error (.internal (.orderViolated ⟨7⟩ ⟨5⟩)) := rfl

end HeapTree

end TransactionalHeap
