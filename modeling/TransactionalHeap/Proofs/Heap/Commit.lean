import TransactionalHeap.Heap
import TransactionalHeap.Proofs.Snapshot.History

/-!
# One commit

The conflict check passes exactly when every written object that the start snapshot has is in the
head with the version it has there. What a commit does to the heap follows from the check alone.
-/
namespace TransactionalHeap

variable [Transactables]

namespace Heap

/-- A written object still has the version it had at the start, if it was there. -/
def Unchanged (start current : Snapshot) (w : PendingRecord) : Prop :=
  ∀ seen, start.versionOf w.handle = some seen → current.versionOf w.handle = some seen

theorem firstConflict_cons (start current : Snapshot) (w : PendingRecord)
    (later : List PendingRecord) :
    (Unchanged start current w ∧
      firstConflict start current (w :: later) = firstConflict start current later) ∨
    ∃ seen, start.versionOf w.handle = some seen ∧ current.versionOf w.handle ≠ some seen ∧
      firstConflict start current (w :: later) =
        some (.writeConflict w.handle (some seen) (current.versionOf w.handle)) := by
  cases hstart : start.versionOf w.handle with
  | none =>
    refine .inl ⟨fun seen hseen => ?_, ?_⟩
    · rw [hstart] at hseen
      cases hseen
    · simp only [firstConflict, hstart]
  | some seen =>
    by_cases hsame : current.versionOf w.handle = some seen
    · refine .inl ⟨fun other hother => ?_, ?_⟩
      · rw [hstart] at hother
        rwa [← hother]
      · simp only [firstConflict, hstart, hsame, if_true]
    · exact .inr ⟨seen, rfl, hsame, by simp only [firstConflict, hstart, if_neg hsame]⟩

theorem firstConflict_eq_none_iff {start current : Snapshot} {writes : List PendingRecord} :
    firstConflict start current writes = none ↔ ∀ w ∈ writes, Unchanged start current w := by
  induction writes with
  | nil => simp [firstConflict]
  | cons w later ih =>
    rcases firstConflict_cons start current w later with ⟨hw, hrest⟩ | ⟨seen, hseen, hnow, hfound⟩
    · rw [hrest, ih]
      simp [hw]
    · rw [hfound]
      constructor
      · intro h
        cases h
      · intro h
        exact absurd (h w List.mem_cons_self seen hseen) hnow

/-- A conflict names the first changed object in list order, the version it had at the start, and
the version it has now. -/
theorem firstConflict_eq_some {start current : Snapshot} {writes : List PendingRecord} {e : Error}
    (h : firstConflict start current writes = some e) :
    ∃ earlier w later seen, writes = earlier ++ w :: later ∧
      (∀ w' ∈ earlier, Unchanged start current w') ∧
      start.versionOf w.handle = some seen ∧ current.versionOf w.handle ≠ some seen ∧
      e = .writeConflict w.handle (some seen) (current.versionOf w.handle) := by
  induction writes with
  | nil => cases h
  | cons w later ih =>
    rcases firstConflict_cons start current w later with ⟨hw, hrest⟩ | ⟨seen, hseen, hnow, hfound⟩
    · obtain ⟨earlier, w', later', seen, rfl, hearlier, hstart, hnow, he⟩ := ih (hrest ▸ h)
      refine ⟨w :: earlier, w', later', seen, rfl, fun x hx => ?_, hstart, hnow, he⟩
      rcases List.mem_cons.mp hx with rfl | hx
      · exact hw
      · exact hearlier x hx
    · rw [hfound] at h
      exact ⟨[], w, later, seen, rfl, by simp, hseen, hnow, (Option.some.inj h).symm⟩

theorem result_commit (start : Snapshot) (writes : List PendingRecord) (h : Heap) :
    (commit start writes).result h =
      if writes.isEmpty then (.ok h.version, h)
      else match firstConflict start h.head writes with
        | some e => (.error e, { h with writeConflicts := h.writeConflicts + 1 })
        | none => (.ok h.version.next, h.publish writes) := by
  cases hempty : writes.isEmpty with
  | true => simp [Step.result, EStateM.run, commit, hempty]
  | false =>
    cases hcheck : firstConflict start h.head writes with
    | none =>
      simp only [Step.result, EStateM.run, commit, hempty, hcheck]
      rfl
    | some e => simp [Step.result, EStateM.run, commit, hempty, hcheck]

end Heap

end TransactionalHeap
