import TransactionalHeap.Object.Stock
import TransactionalHeap.Proofs.Heap.Race
import TransactionalHeap.Proofs.Tree.InOrder

/-!
# The order of writes within a commit

A transaction hands its writes over in whatever order it meets them. As long as it writes each object
once, the order decides neither whether the commit goes through nor what can be seen of the new
snapshot. It only decides what the tree looks like, and which of several conflicts is reported
(`Heap.commit_order_irrelevant`).
-/
namespace TransactionalHeap

section

variable [Transactables]

section LastWrite

variable {handle : Handle} {writes writes' : List PendingRecord} {w : PendingRecord}

/-- Of an object that is written once, its write is the last one. -/
theorem lastWrite_eq_some_iff (distinct : (writes.map PendingRecord.handle).Nodup) :
    lastWrite handle writes = some w ↔ w ∈ writes ∧ w.handle = handle := by
  refine ⟨lastWrite_mem, fun ⟨hmem, hhandle⟩ => ?_⟩
  cases hlast : lastWrite handle writes with
  | none => exact absurd hhandle (lastWrite_eq_none_iff.mp hlast w hmem)
  | some w' =>
    obtain ⟨hmem', hhandle'⟩ := lastWrite_mem hlast
    exact congrArg some (List.inj_on_of_nodup_map distinct hmem' hmem (hhandle'.trans hhandle.symm))

theorem lastWrite_perm (perm : writes.Perm writes')
    (distinct : (writes.map PendingRecord.handle).Nodup) (handle : Handle) :
    lastWrite handle writes = lastWrite handle writes' := by
  have distinct' : (writes'.map PendingRecord.handle).Nodup :=
    (perm.map PendingRecord.handle).nodup_iff.mp distinct
  ext w
  rw [lastWrite_eq_some_iff distinct, lastWrite_eq_some_iff distinct', perm.mem_iff]

end LastWrite

/-- The tree of a snapshot is made by insertions. -/
theorem Snapshot.Built.sound {ok : PendingRecord → Prop} {s : Snapshot} (built : Built ok s) :
    s.tree.Sound := by
  induction built with
  | genesis v => exact HeapTree.sound_empty
  | extend before accepted ih => exact ih.insertAll _

/-- The check finds nothing wrong with it. -/
theorem Snapshot.Built.valid {ok : PendingRecord → Prop} {s : Snapshot} (built : Built ok s) :
    s.tree.validate = .ok () :=
  HeapTree.validate_eq_ok built.sound.balanced built.sound.ordered built.sound.counted

/-- Snapshots that follow by the same writes in another order show the same. -/
theorem Snapshot.sameContents_extend {ok : PendingRecord → Prop} {s : Snapshot} (built : Built ok s)
    {writes writes' : List PendingRecord} (perm : writes.Perm writes')
    (distinct : (writes.map PendingRecord.handle).Nodup) :
    (s.extend writes).tree.SameContents (s.extend writes').tree := by
  have hsound : ∀ ws, (s.extend ws).tree.Sound := fun ws => built.sound.insertAll _
  refine (hsound writes).sameContents (hsound writes') fun h => ?_
  have hfirst := stored_extend built.ordered writes h
  have hsecond := stored_extend built.ordered writes' h
  rw [lastWrite_perm perm distinct] at hfirst
  exact hfirst.trans hsecond.symm

namespace Heap

variable {start current : Snapshot} {writes writes' : List PendingRecord}

/-- The check passes in every order, or in none. -/
theorem firstConflict_perm (perm : writes.Perm writes') :
    firstConflict start current writes = none ↔ firstConflict start current writes' = none := by
  rw [firstConflict_eq_none_iff, firstConflict_eq_none_iff]
  exact forall_congr' fun w => imp_congr_left perm.mem_iff

theorem isConflict_of_firstConflict {fault : Error}
    (conflict : firstConflict start current writes = some fault) : fault.isConflict = true := by
  obtain ⟨earlier, w, later, seen, -, -, -, -, rfl⟩ := firstConflict_eq_some conflict
  rfl

/-- Two results of commits that cannot be told apart by what the heap shows afterwards: both have
published the same version, with trees that show the same and have nothing wrong with them; or both have
met a conflict, and left the head as it was. -/
inductive SameOutcome (head : Snapshot) :
    Except Error Version × Heap → Except Error Version × Heap → Prop
  | committed {v : Version} {h h' : Heap} (contents : h.head.tree.SameContents h'.head.tree)
      (valid : h.head.tree.validate = .ok ()) (valid' : h'.head.tree.validate = .ok ()) :
      SameOutcome head (.ok v, h) (.ok v, h')
  | conflicted {fault fault' : Error} {h h' : Heap} (conflict : fault.isConflict = true)
      (conflict' : fault'.isConflict = true) (same : h.head = head) (same' : h'.head = head) :
      SameOutcome head (.error fault, h) (.error fault', h')

/-- It does not matter in which order a commit is handed its writes, if they are to different
objects. -/
theorem commit_order_irrelevant {h : Heap} (built : Snapshot.Built (fun _ => True) h.head)
    (start : Snapshot) {writes writes' : List PendingRecord} (perm : writes.Perm writes')
    (distinct : (writes.map PendingRecord.handle).Nodup) :
    SameOutcome h.head ((commit start writes).result h) ((commit start writes').result h) := by
  rw [result_commit, result_commit]
  by_cases hempty : writes = []
  · subst hempty
    obtain rfl := perm.nil_eq
    exact .committed (built.sound.sameContents built.sound fun _ => rfl) built.valid built.valid
  have hempty' : writes' ≠ [] := fun hnil => hempty (hnil ▸ perm).eq_nil
  rw [if_neg (by simpa using hempty), if_neg (by simpa using hempty')]
  cases hcheck : firstConflict start h.head writes with
  | none =>
    rw [(firstConflict_perm perm).mp hcheck]
    exact .committed (Snapshot.sameContents_extend built perm distinct)
      (built.extend fun _ _ => trivial).valid (built.extend fun _ _ => trivial).valid
  | some fault =>
    cases hcheck' : firstConflict start h.head writes' with
    | none => cases ((firstConflict_perm perm).mpr hcheck').symm.trans hcheck
    | some fault' =>
      exact .conflicted (isConflict_of_firstConflict hcheck) (isConflict_of_firstConflict hcheck') rfl rfl

end Heap

end

namespace Heap

/-- Two new objects and an old one in two orders, which make two different trees. -/
theorem commit_order_irrelevant_sample :
    let writes := [pendingCounter 3 30, pendingCounter 4 40, pendingCounter 1 11]
    let writes' := [pendingCounter 4 40, pendingCounter 1 11, pendingCounter 3 30]
    let result := (commit twoCounters.head writes).result twoCounters
    let result' := (commit twoCounters.head writes').result twoCounters
    SameOutcome twoCounters.head result result' ∧ result.1 = .ok 3 ∧ result'.1 = .ok 3 ∧
      result.2.head.tree ≠ result'.2.head.tree := by
  intro writes writes' result result'
  have built : Snapshot.Built (fun _ => True) twoCounters.head :=
    ((Snapshot.Built.genesis 0).extend fun _ _ => trivial).extend fun _ _ => trivial
  have hperm : writes.Perm writes' := by decide +kernel
  have hdistinct : (writes.map PendingRecord.handle).Nodup := by decide +kernel
  refine ⟨commit_order_irrelevant built twoCounters.head hperm hdistinct, ?_, ?_, ?_⟩
  all_goals decide +kernel

end Heap

end TransactionalHeap
