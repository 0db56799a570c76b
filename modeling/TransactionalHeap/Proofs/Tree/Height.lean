import Mathlib.Analysis.SpecialFunctions.Log.Base
import Mathlib.NumberTheory.Real.GoldenRatio
import TransactionalHeap.Object.Stock
import TransactionalHeap.Proofs.Tree.Insertions

/-!
# How high a tree grows

A balanced tree of a given height has the fewest nodes where any two siblings differ by one level. Such
trees grow as the Fibonacci numbers do, and so the height of every balanced tree is logarithmic in the
number of its nodes. An insertion goes down one path, so the height also bounds how deep its calls are
nested (`HeapTree.height_logarithmic`).
-/
namespace TransactionalHeap

namespace Tree

/-- The Fibonacci numbers count the nodes that balance takes. -/
theorem Balanced.fib_le_size [Transactables] {t : Tree} (balanced : t.Balanced) :
    Nat.fib (t.levels + 2) ≤ t.size + 1 := by
  induction balanced with
  | empty => exact Nat.le_refl 1
  | @node cell left right _ _ _ even ihl ihr =>
    obtain ⟨hle, hge⟩ := even
    rw [levels_node, size, Nat.add_comm 1, Nat.fib_add_two]
    -- the lower child has one level less at most
    rcases Nat.le_total left.levels right.levels with hhigher | hhigher
    · rw [Nat.max_eq_right hhigher]
      change Nat.fib (right.levels + 1) + Nat.fib (right.levels + 2) ≤ _
      have hlower := Nat.fib_mono (show right.levels + 1 ≤ left.levels + 2 by omega)
      omega
    · rw [Nat.max_eq_left hhigher]
      change Nat.fib (left.levels + 1) + Nat.fib (left.levels + 2) ≤ _
      have hlower := Nat.fib_mono (show left.levels + 1 ≤ right.levels + 2 by omega)
      omega

end Tree

/-! ## Fibonacci numbers and powers of two -/

theorem goldenRatio_pow_le_fib (n : Nat) : Real.goldenRatio ^ n ≤ Nat.fib (n + 2) := by
  cases n with
  | zero => simp
  | succ n =>
    have hpow := Real.goldenRatio_mul_fib_succ_add_fib n
    have hsucc : (Nat.fib (n + 3) : ℝ) = Nat.fib (n + 1) + (Nat.fib n + Nat.fib (n + 1)) := by
      rw [Nat.fib_add_two, Nat.fib_add_two]
      push_cast
      ring
    have htwo := mul_le_mul_of_nonneg_right Real.goldenRatio_lt_two.le
      (Nat.cast_nonneg (α := ℝ) (Nat.fib (n + 1)))
    rw [← hpow, hsucc]
    linarith

/-- What makes 1.45 = 29 / 20 a bound on the logarithm of two to the golden base. -/
theorem two_pow_le_goldenRatio_pow : (2 : ℝ) ^ 20 ≤ Real.goldenRatio ^ 29 := by
  have hroot : (2 : ℝ) ≤ √5 := Real.le_sqrt_of_sq_le (by norm_num)
  have hlow : (3 / 2 : ℝ) ≤ Real.goldenRatio := by
    rw [Real.goldenRatio]
    linarith
  have hpow := Real.goldenRatio_mul_fib_succ_add_fib 28
  norm_num at hpow ⊢
  linarith

/-- Where the Fibonacci number of a height is bounded, the height is logarithmic. -/
theorem height_lt_logb {h n : Nat} (bound : Nat.fib (h + 2) ≤ n + 1) :
    (h : ℝ) < 1.45 * Real.logb 2 (n + 2) := by
  have hgolden : Real.goldenRatio ^ h < (n + 2 : ℝ) := by
    have hcast : (Nat.fib (h + 2) : ℝ) ≤ n + 1 := by exact_mod_cast bound
    linarith [goldenRatio_pow_le_fib h]
  have hpow : (2 : ℝ) ^ (20 * h) < (n + 2 : ℝ) ^ 29 := by
    calc (2 : ℝ) ^ (20 * h) = (2 ^ 20) ^ h := pow_mul 2 20 h
      _ ≤ (Real.goldenRatio ^ 29) ^ h := pow_le_pow_left₀ (by norm_num) two_pow_le_goldenRatio_pow h
      _ = (Real.goldenRatio ^ h) ^ 29 := pow_right_comm _ _ _
      _ < (n + 2 : ℝ) ^ 29 := pow_lt_pow_left₀ hgolden (pow_nonneg Real.goldenRatio_pos.le h) (by decide)
  have hlog := Real.logb_lt_logb (b := 2) (by norm_num) (by positivity) hpow
  rw [Real.logb_pow, Real.logb_pow, Real.logb_self_eq_one (by norm_num)] at hlog
  push_cast at hlog
  linarith

/-! ## How deep the calls of an insertion are nested -/

namespace Tree

variable [Transactables]

/-- Insert a record and count the calls that it takes, the first one included. -/
def insertCounting (record : Record) (version : Version) : Tree → (Tree × Bool) × Nat
  | empty => ((join ⟨record.handle, record, version, 0⟩ empty empty, true), 1)
  | node cell left right =>
    if record.handle = cell.handle then ((join { cell with record, version } left right, false), 1)
    else if record.handle < cell.handle then
      let ((left, added), calls) := insertCounting record version left
      ((rebalance cell left right, added), calls + 1)
    else
      let ((right, added), calls) := insertCounting record version right
      ((rebalance cell left right, added), calls + 1)

/-- Counting changes nothing. -/
theorem insertCounting_fst (record : Record) (version : Version) (t : Tree) :
    (t.insertCounting record version).1 = t.insert record version := by
  induction t with
  | empty => rfl
  | node cell left right ihl ihr =>
    rw [insertCounting, insert, ← ihl, ← ihr]
    split
    · rfl
    · split <;> rfl

/-- Every call but the last goes one level down. -/
theorem insertCounting_snd_le (record : Record) (version : Version) (t : Tree) :
    (t.insertCounting record version).2 ≤ t.levels + 1 := by
  induction t with
  | empty => exact Nat.le_refl 1
  | node cell left right ihl ihr =>
    rw [insertCounting, levels_node]
    split
    · exact Nat.le_add_left 1 _
    · split
      · change (left.insertCounting record version).2 + 1 ≤ _
        omega
      · change (right.insertCounting record version).2 + 1 ≤ _
        omega

end Tree

namespace HeapTree

section

variable [Transactables]

/-- As many handles are inserted as the tree gets nodes. -/
theorem length_insertAll (records : List Record) :
    ((∅ : HeapTree).insertAll records).length = (records.map Record.handle).toFinset.card := by
  rw [(sound_empty.insertAll records).length_eq_card]
  congr 1
  ext h
  rw [List.mem_toFinset, List.mem_toFinset, mem_handles_insertAll, List.mem_map]

/-- The height of a tree of `n` nodes, made by inserting `n` handles, is logarithmic: its Fibonacci number
is not above `n + 1`, which keeps it below `1.45 * log2 (n + 2)`. One more insertion is a nest of at most
one call more than the tree is high. With a billion handles that is fewer than 45. -/
theorem height_logarithmic (records : List Record) :
    let t := (∅ : HeapTree).insertAll records
    let n := (records.map Record.handle).toFinset.card
    t.length = n ∧ t.root.size = n ∧
    t.height = t.root.levels ∧
    Nat.fib (t.height + 2) ≤ n + 1 ∧
    (t.height : ℝ) < 1.45 * Real.logb 2 (n + 2) ∧
    ∀ record : Record,
      let counted := t.root.insertCounting record record.version
      counted.1 = t.root.insert record record.version ∧ counted.2 ≤ t.height + 1 ∧
        (n ≤ 10 ^ 9 → counted.2 < 45) := by
  intro t n
  have hsound : t.Sound := sound_empty.insertAll records
  have hheight : t.height = t.root.levels := hsound.balanced.height_eq
  have hlength : t.length = n := length_insertAll records
  have hsize : t.root.size = n := hsound.counted.symm.trans hlength
  have hfib : Nat.fib (t.height + 2) ≤ n + 1 := by
    rw [hheight, ← hsize]
    exact hsound.balanced.fib_le_size
  refine ⟨hlength, hsize, hheight, hfib, height_lt_logb hfib, fun record => ?_⟩
  intro counted
  have hcalls : counted.2 ≤ t.height + 1 := by
    rw [hheight]
    exact Tree.insertCounting_snd_le record record.version t.root
  refine ⟨Tree.insertCounting_fst record record.version t.root, hcalls, fun few => ?_⟩
  have hlow : t.height < 44 := by
    by_contra hhigh
    have hmono := Nat.fib_mono (show 46 ≤ t.height + 2 by omega)
    have h46 : Nat.fib 46 = 1836311903 := by norm_num
    omega
  omega

end

/-- The bound is met: seven handles can take four levels. -/
example :
    let records := [3, 2, 5, 1, 4, 6, 7].map fun h => (PendingRecord.ofObject ⟨h⟩ .unit).stamp 1
    let t := (∅ : HeapTree).insertAll records
    t.length = 7 ∧ t.height = 4 ∧ Nat.fib (4 + 2) = 7 + 1 := by decide

end HeapTree

end TransactionalHeap
