import TransactionalHeap.Tree

/-!
# Balance

In a balanced tree every cached height is the real one, and the heights of two siblings differ by at
most one. Joining two such siblings gives a balanced tree. Where one of them is higher by two levels,
a rotation repairs it (`Tree.Balanced.rebalance`). An insertion makes a tree higher by one level at
most, so it never meets a greater difference (`Tree.Balanced.insert`).
-/
namespace TransactionalHeap

variable [Transactables]

namespace Tree

variable {pivot cell l m r : Cell} {left right ll lr ml mr rl rr t : Tree}

/-- The real height, whatever is cached. -/
def levels : Tree → Nat
  | empty => 0
  | node _ left right => 1 + max left.levels right.levels

@[simp] theorem levels_empty : empty.levels = 0 := rfl

@[simp] theorem levels_node (cell : Cell) (left right : Tree) :
    (node cell left right).levels = 1 + max left.levels right.levels := rfl

@[simp] theorem levels_join (cell : Cell) (left right : Tree) :
    (join cell left right).levels = 1 + max left.levels right.levels := rfl

/-- The heights of two trees differ by at most `n`. -/
def Within (n : Nat) (left right : Tree) : Prop :=
  left.levels ≤ right.levels + n ∧ right.levels ≤ left.levels + n

inductive Balanced : Tree → Prop
  | empty : Balanced empty
  | node {cell : Cell} {left right : Tree} (isLeft : Balanced left) (isRight : Balanced right)
      (cached : cell.height = 1 + max left.levels right.levels) (even : Within 1 left right) :
      Balanced (node cell left right)

/-! ## Rotations -/

/-- How rebalancing comes out, with what was seen of the heights before. The higher child has a root
in each case, and so has the inner grandchild that is lifted over it. -/
inductive Rotation (pivot : Cell) : Tree → Tree → Tree → Prop
  | even {left right : Tree} (low : tilt left right ≤ 1) (high : -1 ≤ tilt left right) :
      Rotation pivot left right (join pivot left right)
  | singleLeft {left rl rr : Tree} {r : Cell} (heavy : tilt left (node r rl rr) > 1)
      (outer : tilt rl rr ≥ 0) :
      Rotation pivot left (node r rl rr) (join r (join pivot left rl) rr)
  | doubleLeft {left ml mr rr : Tree} {r m : Cell}
      (heavy : tilt left (node r (node m ml mr) rr) > 1) (inner : tilt (node m ml mr) rr < 0) :
      Rotation pivot left (node r (node m ml mr) rr) (join m (join pivot left ml) (join r mr rr))
  | singleRight {ll lr right : Tree} {l : Cell} (heavy : tilt (node l ll lr) right < -1)
      (outer : tilt ll lr ≤ 0) :
      Rotation pivot (node l ll lr) right (join l ll (join pivot lr right))
  | doubleRight {ll ml mr right : Tree} {l m : Cell}
      (heavy : tilt (node l ll (node m ml mr)) right < -1) (inner : tilt ll (node m ml mr) > 0) :
      Rotation pivot (node l ll (node m ml mr)) right (join m (join l ll ml) (join pivot mr right))

theorem rebalance_of_even (low : tilt left right ≤ 1) (high : -1 ≤ tilt left right) :
    rebalance pivot left right = join pivot left right := by
  unfold rebalance
  rw [if_neg (by omega), if_neg (by omega)]

/-- Nothing is higher on the right than on the left while there is nothing on the right. -/
theorem tilt_empty_right (t : Tree) : tilt t empty ≤ 0 := by
  rw [tilt, height]
  omega

theorem tilt_empty_left (t : Tree) : tilt empty t ≥ 0 := by
  rw [tilt, height]
  omega

/-- Whatever the two children are and whatever their heights say, rebalancing never misses the child
that it is to lift. -/
theorem rotation_rebalance (pivot : Cell) (left right : Tree) :
    Rotation pivot left right (rebalance pivot left right) := by
  by_cases heavy : tilt left right > 1
  · cases right with
    | empty =>
      have hnone := tilt_empty_right left
      omega
    | node r rl rr =>
      by_cases outer : tilt rl rr ≥ 0
      · simp only [rebalance, if_pos heavy, if_pos outer]
        exact .singleLeft heavy outer
      · cases rl with
        | empty => exact absurd (tilt_empty_left rr) outer
        | node m ml mr =>
          simp only [rebalance, if_pos heavy, if_neg outer]
          exact .doubleLeft heavy (Int.not_le.mp outer)
  · by_cases light : tilt left right < -1
    · cases left with
      | empty =>
        have hnone := tilt_empty_left right
        omega
      | node l ll lr =>
        by_cases outer : tilt ll lr ≤ 0
        · simp only [rebalance, if_neg heavy, if_pos light, if_pos outer]
          exact .singleRight light outer
        · cases lr with
          | empty => exact absurd (tilt_empty_right ll) outer
          | node m ml mr =>
            simp only [rebalance, if_neg heavy, if_pos light, if_neg outer]
            exact .doubleRight light (Int.not_le.mp outer)
    · rw [rebalance_of_even (by omega) (by omega)]
      exact .even (by omega) (by omega)

namespace Balanced

theorem height_eq (balanced : t.Balanced) : t.height = t.levels := by
  cases balanced with
  | empty => rfl
  | node _ _ cached _ => exact cached

theorem tilt_eq (hleft : left.Balanced) (hright : right.Balanced) :
    tilt left right = (right.levels : Int) - left.levels := by
  rw [tilt, hleft.height_eq, hright.height_eq]

theorem join (cell : Cell) (hleft : left.Balanced) (hright : right.Balanced)
    (even : Within 1 left right) : (Tree.join cell left right).Balanced := by
  refine .node hleft hright ?_ even
  rw [hleft.height_eq, hright.height_eq]

/-- What becomes of two children: a balanced tree of the higher one's height, or one level higher. -/
structure Repaired (left right made : Tree) : Prop where
  balanced : made.Balanced
  low : max left.levels right.levels ≤ made.levels
  high : made.levels ≤ max left.levels right.levels + 1

/-- Rebalancing copes with a difference of two levels. Where there is less to repair, the children stay
where they are. -/
theorem repaired (rotation : Rotation pivot left right t) (hleft : left.Balanced)
    (hright : right.Balanced) (near : Within 2 left right) : Repaired left right t ∧
      (Within 1 left right → t.levels = 1 + max left.levels right.levels) := by
  have htilt := tilt_eq hleft hright
  obtain ⟨hle, hge⟩ := near
  unfold Within
  cases rotation with
  | even low high =>
    refine ⟨⟨hleft.join pivot hright ⟨by omega, by omega⟩, ?_, ?_⟩, fun _ => levels_join ..⟩ <;>
      rw [levels_join] <;> omega
  | @singleLeft _ rl rr r heavy outer =>
    obtain _ | ⟨hrl, hrr, -, hle', hge'⟩ := hright
    have hinner := tilt_eq hrl hrr
    rw [levels_node] at *
    have hlow := hleft.join pivot hrl ⟨by omega, by omega⟩
    refine ⟨⟨hlow.join r hrr ⟨?_, ?_⟩, ?_, ?_⟩, fun ⟨_, _⟩ => ?_⟩ <;>
      simp only [levels_join, levels_node] <;> omega
  | @doubleLeft _ ml mr rr r m heavy inner =>
    obtain _ | ⟨hm, hrr, -, hle', hge'⟩ := hright
    have hinner := tilt_eq hm hrr
    obtain _ | ⟨hml, hmr, -, hle'', hge''⟩ := hm
    simp only [levels_node] at *
    have hlow := hleft.join pivot hml ⟨by omega, by omega⟩
    have hhigh := hmr.join r hrr ⟨by omega, by omega⟩
    refine ⟨⟨hlow.join m hhigh ⟨?_, ?_⟩, ?_, ?_⟩, fun ⟨_, _⟩ => ?_⟩ <;>
      simp only [levels_join, levels_node] <;> omega
  | @singleRight ll lr _ l heavy outer =>
    obtain _ | ⟨hll, hlr, -, hle', hge'⟩ := hleft
    have hinner := tilt_eq hll hlr
    rw [levels_node] at *
    have hhigh := hlr.join pivot hright ⟨by omega, by omega⟩
    refine ⟨⟨hll.join l hhigh ⟨?_, ?_⟩, ?_, ?_⟩, fun ⟨_, _⟩ => ?_⟩ <;>
      simp only [levels_join, levels_node] <;> omega
  | @doubleRight ll ml mr _ l m heavy inner =>
    obtain _ | ⟨hll, hm, -, hle', hge'⟩ := hleft
    have hinner := tilt_eq hll hm
    obtain _ | ⟨hml, hmr, -, hle'', hge''⟩ := hm
    simp only [levels_node] at *
    have hlow := hll.join l hml ⟨by omega, by omega⟩
    have hhigh := hmr.join pivot hright ⟨by omega, by omega⟩
    refine ⟨⟨hlow.join m hhigh ⟨?_, ?_⟩, ?_, ?_⟩, fun ⟨_, _⟩ => ?_⟩ <;>
      simp only [levels_join, levels_node] <;> omega

theorem rebalance (pivot : Cell) (hleft : left.Balanced) (hright : right.Balanced)
    (near : Within 2 left right) : Repaired left right (Tree.rebalance pivot left right) ∧
      (Within 1 left right →
        (Tree.rebalance pivot left right).levels = 1 + max left.levels right.levels) :=
  repaired (rotation_rebalance pivot left right) hleft hright near

/-- What becomes of a tree by an insertion: a balanced one of the same height, or one level higher. -/
structure Grown (t made : Tree) : Prop where
  balanced : made.Balanced
  low : t.levels ≤ made.levels
  high : made.levels ≤ t.levels + 1

/-- A child that has grown makes its parent grow by no more. -/
theorem grown_left (grown : Grown left t) (hright : right.Balanced) (even : Within 1 left right) :
    Grown (.node cell left right) (Tree.rebalance cell t right) := by
  obtain ⟨balanced, hlow, hhigh⟩ := grown
  obtain ⟨hle, hge⟩ := even
  have near : Within 2 t right := ⟨by omega, by omega⟩
  obtain ⟨⟨hmade, hlow', hhigh'⟩, hkept⟩ := balanced.rebalance cell hright near
  unfold Within at hkept
  exact ⟨hmade, by rw [levels_node]; omega, by rw [levels_node]; omega⟩

theorem grown_right (grown : Grown right t) (hleft : left.Balanced) (even : Within 1 left right) :
    Grown (.node cell left right) (Tree.rebalance cell left t) := by
  obtain ⟨balanced, hlow, hhigh⟩ := grown
  obtain ⟨hle, hge⟩ := even
  have near : Within 2 left t := ⟨by omega, by omega⟩
  obtain ⟨⟨hmade, hlow', hhigh'⟩, hkept⟩ := hleft.rebalance cell balanced near
  unfold Within at hkept
  exact ⟨hmade, by rw [levels_node]; omega, by rw [levels_node]; omega⟩

theorem insert (record : Record) (version : Version) (balanced : t.Balanced) :
    Grown t (t.insert record version).1 := by
  induction balanced with
  | empty => exact ⟨Balanced.empty.join _ .empty ⟨by simp, by simp⟩, by simp, by simp [Tree.insert]⟩
  | node hleft hright cached even ihl ihr =>
    unfold Tree.insert
    split
    · exact ⟨hleft.join _ hright even, by simp, by simp⟩
    · split
      · exact grown_left ihl hright even
      · exact grown_right ihr hleft even

end Balanced

end Tree

end TransactionalHeap
