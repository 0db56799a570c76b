import TransactionalHeap.Object.Stock
import TransactionalHeap.Proofs.Heap.CommitLog

/-!
# Commits among rivals

A commit that loses its swap starts afresh on the head that beat it. However many rivals get in
between, it ends on a head that holds all they published (`commitAmong_first_committer_wins`):
either it comes after all of them, or one of them changed an object it read and wrote, and it
reports the first such object and leaves no trace.

The invariant of the loop is that attempt `k` loads the head as the first `k` overtaking rivals left
it. `attemptHeads` lists those heads.
-/
namespace TransactionalHeap

section

variable [Transactables]

namespace Heap

/-- The rivals that published, with the versions they were given, in the order they ran. -/
def RaceResult.overtaking (race : RaceResult) (rivals : List Rival) : List Published :=
  (rivals.zip race.rivals).filterMap fun (rival, answer) => rival.logged answer

/-- The heads that the attempts of a commit load, from the first attempt to the last. -/
def attemptHeads (start : Snapshot) (writes : List PendingRecord) : List Rival → Heap → List Snapshot
  | [], h => [h.head]
  | rival :: later, h =>
    match firstConflict start h.head writes with
    | some _ => [h.head]
    | none =>
      let met := (rival.run h).2
      if met.head.depth = h.head.depth then [h.head]
      else h.head :: attemptHeads start writes later { met with casFailures := met.casFailures + 1 }

/-- The heads that commits leave behind, each on the one before, beginning with the first. -/
def successiveHeads (s : Snapshot) (commits : List (List PendingRecord)) : List Snapshot :=
  (List.range (commits.length + 1)).map fun k => s.extendAll (commits.take k)

theorem successiveHeads_cons (s : Snapshot) (writes : List PendingRecord)
    (later : List (List PendingRecord)) :
    successiveHeads s (writes :: later) = s :: successiveHeads (s.extend writes) later := by
  rw [successiveHeads, List.length_cons, List.range_succ_eq_map, List.map_cons, List.map_map]
  rfl

/-- How a race ends, on the head that its last attempt has loaded. -/
inductive Finish (start : Snapshot) (writes : List PendingRecord) (last : Snapshot) :
    RaceResult → Prop
  | published {race : RaceResult}
      (unchanged : ∀ w ∈ writes, Unchanged start last w)
      (result : race.result = .ok last.version.next)
      (head : race.heap.head = last.extend writes) : Finish start writes last race
  | rejected {race : RaceResult} {e : Error}
      (conflict : firstConflict start last writes = some e)
      (result : race.result = .error e)
      (head : race.heap.head = last) : Finish start writes last race

/-- What holds of a race after any number of rivals: each attempt met the head as the overtaking
rivals had left it by then, each of them cost one failed swap, and the last attempt decided. -/
structure Settled (start : Snapshot) (writes : List PendingRecord) (rivals : List Rival) (h : Heap)
    (race : RaceResult) (won : List Published) : Prop where
  overtaking : race.overtaking rivals = won
  numbered : Published.Numbered h.version won
  heads : attemptHeads start writes rivals h =
    successiveHeads h.head (won.map Published.writes)
  casFailures : race.heap.casFailures = h.casFailures + won.length
  finish : Finish start writes (h.head.extendAll (won.map Published.writes)) race

variable {start : Snapshot} {writes : List PendingRecord}

/-- Nobody in between: one attempt decides. -/
theorem settled_alone (nonempty : writes ≠ []) (h : Heap) :
    Settled start writes [] h (commitAmong start writes [] h) [] := by
  have hwrites : writes.isEmpty = false := by simpa using nonempty
  have hresult := result_commit start writes h
  rw [hwrites, if_neg Bool.false_ne_true] at hresult
  cases hcheck : firstConflict start h.head writes with
  | none =>
    rw [hcheck] at hresult
    refine ⟨rfl, trivial, rfl, ?_, .published (firstConflict_eq_none_iff.mp hcheck) ?_ ?_⟩ <;>
      simp only [commitAmong, hresult] <;> rfl
  | some e =>
    rw [hcheck] at hresult
    refine ⟨rfl, trivial, rfl, ?_, .rejected hcheck ?_ ?_⟩ <;>
      simp only [commitAmong, hresult] <;> rfl

/-- A conflict ends the race before the rival of this attempt runs. -/
theorem settled_rejected (nonempty : writes ≠ []) (rival : Rival) (later : List Rival) {h : Heap}
    {e : Error} (conflict : firstConflict start h.head writes = some e) :
    Settled start writes (rival :: later) h (commitAmong start writes (rival :: later) h) [] := by
  have hwrites : writes.isEmpty = false := by simpa using nonempty
  have hrace : commitAmong start writes (rival :: later) h =
      { result := .error e, heap := { h with writeConflicts := h.writeConflicts + 1 } } := by
    simp only [commitAmong, hwrites, conflict]
    rfl
  rw [hrace]
  refine ⟨rfl, trivial, ?_, rfl, .rejected conflict rfl rfl⟩
  simp only [attemptHeads, conflict]
  rfl

/-- A rival that publishes nothing does not disturb the swap. -/
theorem settled_undisturbed (nonempty : writes ≠ []) (rival : Rival) (later : List Rival) {h : Heap}
    (passed : firstConflict start h.head writes = none)
    (nothing : rival.logged (rival.run h).1 = none) (same : (rival.run h).2.head = h.head)
    (quiet : (rival.run h).2.casFailures = h.casFailures) :
    Settled start writes (rival :: later) h (commitAmong start writes (rival :: later) h) [] := by
  have hwrites : writes.isEmpty = false := by simpa using nonempty
  have hrace : commitAmong start writes (rival :: later) h =
      { result := .ok h.head.version.next, heap := (rival.run h).2.publish writes,
        rivals := [(rival.run h).1] } := by
    simp only [commitAmong, hwrites, passed, same, if_true]
    simp only [version, publish, same, Snapshot.version_extend]
    rfl
  rw [hrace]
  refine ⟨?_, trivial, ?_, quiet,
    .published (firstConflict_eq_none_iff.mp passed) rfl (congrArg (·.extend writes) same)⟩
  · simp [RaceResult.overtaking, nothing]
  · simp only [attemptHeads, passed, same, if_true]
    rfl

/-- A commit by another party fails no swap of ours. -/
theorem Rival.casFailures_run (rival : Rival) (h : Heap) :
    (rival.run h).2.casFailures = h.casFailures := by
  rw [Rival.run, result_commit]
  split
  · rfl
  · split <;> rfl

/-- One lost attempt: the race goes on as a race on the rival's heap, with one more failed swap. -/
theorem settled_overtaken (nonempty : writes ≠ []) (rival : Rival) (later : List Rival) {h : Heap}
    (passed : firstConflict start h.head writes = none)
    (won : rival.logged (rival.run h).1 = some ⟨h.version.next, rival.writes⟩)
    (new : (rival.run h).2.head = h.head.extend rival.writes)
    {met : Heap} (hmet : met = { (rival.run h).2 with casFailures := h.casFailures + 1 })
    {rest : List Published}
    (ih : Settled start writes later met (commitAmong start writes later met) rest) :
    Settled start writes (rival :: later) h (commitAmong start writes (rival :: later) h)
      (⟨h.version.next, rival.writes⟩ :: rest) := by
  have hwrites : writes.isEmpty = false := by simpa using nonempty
  have hmoved : (rival.run h).2.head.depth ≠ h.head.depth := by
    rw [new, Snapshot.depth_extend]
    omega
  have hhead : met.head = h.head.extend rival.writes := by rw [hmet]; exact new
  have hrace : commitAmong start writes (rival :: later) h =
      { commitAmong start writes later met with
        rivals := (rival.run h).1 :: (commitAmong start writes later met).rivals } := by
    simp only [commitAmong, hwrites, passed, if_neg hmoved, Rival.casFailures_run, ← hmet]
    rfl
  rw [hrace]
  obtain ⟨hovertaking, hnumbered, hheads, hfailures, hfinish⟩ := ih
  refine ⟨?_, ⟨rfl, ?_⟩, ?_, ?_, ?_⟩
  · rw [← hovertaking]
    simp [RaceResult.overtaking, won]
  · rw [version, hhead] at hnumbered
    exact hnumbered
  · rw [List.map_cons, successiveHeads_cons, ← hhead, ← hheads]
    simp only [attemptHeads, passed, if_neg hmoved, Rival.casFailures_run, ← hmet]
  · rw [hfailures, hmet, List.length_cons]
    simp only
    omega
  · rw [List.map_cons, Snapshot.extendAll_cons, ← hhead]
    cases hfinish with
    | published unchanged result head => exact .published unchanged result head
    | rejected conflict result head => exact .rejected conflict result head

/-- Induction over the rivals: every race settles. -/
theorem exists_settled (nonempty : writes ≠ []) (rivals : List Rival) (h : Heap) :
    ∃ won, Settled start writes rivals h (commitAmong start writes rivals h) won := by
  induction rivals generalizing h with
  | nil => exact ⟨[], settled_alone nonempty h⟩
  | cons rival later ih =>
    cases hcheck : firstConflict start h.head writes with
    | some e => exact ⟨[], settled_rejected nonempty rival later hcheck⟩
    | none =>
      rcases rival.run_cases h with ⟨hnothing, hsame⟩ | ⟨hwon, hnew⟩
      · exact ⟨[], settled_undisturbed nonempty rival later hcheck hnothing hsame
          (rival.casFailures_run h)⟩
      · obtain ⟨rest, hrest⟩ := ih { (rival.run h).2 with casFailures := h.casFailures + 1 }
        exact ⟨_, settled_overtaken nonempty rival later hcheck hwon hnew rfl hrest⟩

/-- What a commit among rivals does. Its attempts load the heads that the overtaking rivals leave,
one after another, so each of them costs one failed swap. If it succeeds, it succeeds all of them
and extends the head they left by its own writes, having changed nothing that they changed after its
start. If it fails, it names the first of its objects that changed since its start, and the head is
as the rivals left it.

Its version is the greater number as long as versions do not wrap. -/
theorem commitAmong_first_committer_wins {h : Heap} (built : Snapshot.Built (fun _ => True) h.head)
    (start : Snapshot) {writes : List PendingRecord} (nonempty : writes ≠ [])
    (rivals : List Rival) :
    let race := commitAmong start writes rivals h
    let won := race.overtaking rivals
    let before := h.head.extendAll (won.map Published.writes)
    attemptHeads start writes rivals h = successiveHeads h.head (won.map Published.writes) ∧
    (attemptHeads start writes rivals h).length = won.length + 1 ∧
    race.heap.casFailures = h.casFailures + won.length ∧
    (∀ v, race.result = .ok v →
      v = before.version.next ∧ race.heap.head = before.extend writes ∧
      (∀ handle, race.heap.head.read handle =
        ((lastWrite handle writes).map (·.stamp v)).or (before.read handle)) ∧
      (∀ w ∈ writes, Unchanged start before w) ∧
      (∀ p ∈ won, ∃ s ∈ before.chain, s.version = p.version) ∧
      (h.version.toNat + won.length + 1 < 2 ^ 64 → ∀ p ∈ won, p.version < v)) ∧
    (∀ e, race.result = .error e →
      race.heap.head = before ∧
      ∃ earlier w later seen, writes = earlier ++ w :: later ∧
        (∀ w' ∈ earlier, Unchanged start before w') ∧
        start.versionOf w.handle = some seen ∧ before.versionOf w.handle ≠ some seen ∧
        e = .writeConflict w.handle (some seen) (before.versionOf w.handle)) := by
  intro race won before
  obtain ⟨won', settled⟩ : ∃ won, Settled start writes rivals h race won :=
    exists_settled nonempty rivals h
  obtain rfl : won = won' := settled.overtaking
  have hbefore : before.version = h.version + UInt64.ofNat won.length := by
    rw [Snapshot.version_extendAll, List.length_map]
    rfl
  have hordered : before.tree.root.Ordered := (built.extendAll fun _ _ _ _ => trivial).ordered
  refine ⟨settled.heads, ?_, settled.casFailures, fun v hv => ?_, fun e he => ?_⟩
  · rw [settled.heads, successiveHeads, List.length_map, List.length_range, List.length_map]
  · cases settled.finish with
    | rejected _ result _ =>
      rw [result] at hv
      cases hv
    | published unchanged result head =>
      rw [result] at hv
      obtain rfl : before.version.next = v := Except.ok.inj hv
      refine ⟨rfl, head, fun handle => ?_, unchanged, fun p hp => ?_, fun room p hp => ?_⟩
      · rw [head]
        exact Snapshot.read_extend hordered writes handle
      · exact settled.numbered.exists_chain hp
      · have hp := settled.numbered.toNat_le (by omega) hp
        have hv : before.version.next.toNat = h.version.toNat + won.length + 1 := by
          rw [hbefore, Version.next_add_ofNat, Version.toNat_add_ofNat (by omega), Nat.add_assoc]
        rw [UInt64.lt_iff_toNat_lt, hv]
        omega
  · cases settled.finish with
    | published _ result _ =>
      rw [result] at he
      cases he
    | rejected conflict result head =>
      rw [result] at he
      obtain rfl := Except.error.inj he
      exact ⟨head, firstConflict_eq_some conflict⟩

end Heap

end

namespace Heap

/-- The heap of two counters at versions 1 and 2. -/
def twoCounters : Heap := (ofVersion 0).publish [pendingCounter 1 10] |>.publish [pendingCounter 2 20]

/-- A rival that adds an object, one that replaces an object, and one with nothing to write. -/
def sampleRivals : List Rival :=
  [{ writes := [pendingCounter 3 30] },
    { start := some twoCounters.head, writes := [pendingCounter 2 21] }, { writes := [] }]

/-- Two rivals overtake a commit, the third does not, and the commit comes after them as version
5. -/
theorem commitAmong_sample :
    let race := commitAmong twoCounters.head [pendingCounter 1 11] sampleRivals twoCounters
    race.result = .ok 5 ∧ (race.overtaking sampleRivals).map Published.version = [3, 4] ∧
    race.heap.casFailures = 2 ∧
    race.heap.head.read ⟨1⟩ = some ((pendingCounter 1 11).stamp 5) ∧
    race.heap.head.read ⟨3⟩ = some ((pendingCounter 3 30).stamp 3) := by
  intro race
  have built : Snapshot.Built (fun _ => True) twoCounters.head :=
    ((Snapshot.Built.genesis 0).extend fun _ _ => trivial).extend fun _ _ => trivial
  have hresult : race.result = .ok 5 := by rfl
  obtain ⟨-, -, hfailures, hok, -⟩ :=
    commitAmong_first_committer_wins built twoCounters.head
      (List.cons_ne_nil (pendingCounter 1 11) []) sampleRivals
  obtain ⟨-, -, hread, -⟩ := hok 5 hresult
  refine ⟨hresult, by decide +kernel, ?_, ?_, ?_⟩
  · exact hfailures.trans (by decide +kernel)
  · exact (hread ⟨1⟩).trans (by decide +kernel)
  · exact (hread ⟨3⟩).trans (by decide +kernel)

end Heap

end TransactionalHeap
