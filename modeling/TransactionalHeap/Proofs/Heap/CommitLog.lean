import TransactionalHeap.Object.Stock
import TransactionalHeap.Proofs.Heap.Commit

/-!
# The heap as a log of its commits

Any run of commit calls on a fresh heap leaves a log of those that published something. The heap is
that log: its chain has one snapshot for each logged commit, and reading an object at a version
gives the last record that the log has for it up to there (`heap_eq_commitLog`).

The log is kept from the answers of the calls alone. `Heap.Rival` is what a single call is given: a
start snapshot, or none to start at the head that it meets, and the writes.
-/
namespace TransactionalHeap

section

variable [Transactables]

/-- A logged commit: the version it was given and what it wrote. -/
structure Published where
  version : Version
  writes : List PendingRecord

namespace Published

def wrote (p : Published) (handle : Handle) : Bool := p.writes.any (·.handle = handle)

/-- The record that the commit leaves for a handle. -/
def recordFor (p : Published) (handle : Handle) : Option Record :=
  (lastWrite handle p.writes).map (·.stamp p.version)

theorem recordFor_eq_none_iff {p : Published} {handle : Handle} :
    p.recordFor handle = none ↔ p.wrote handle = false := by
  simp [recordFor, wrote, lastWrite_eq_none_iff]

/-- What a log says of a handle at a version: the record of the latest commit that is not newer and
wrote the handle. -/
def recordAt (log : List Published) (handle : Handle) (v : Version) : Option Record :=
  (log.filter fun p => p.version ≤ v && p.wrote handle).getLast?.bind (·.recordFor handle)

/-- The latest record for a handle in a log. -/
def latest (log : List Published) (handle : Handle) : Option Record :=
  (log.filter (·.wrote handle)).getLast?.bind (·.recordFor handle)

/-- The commits of a log have successive versions, the first one after `v`. -/
def Numbered : Version → List Published → Prop
  | _, [] => True
  | v, p :: later => p.version = v.next ∧ Numbered p.version later

theorem latest_cons (p : Published) (later : List Published) (handle : Handle) :
    latest (p :: later) handle = (latest later handle).or (p.recordFor handle) := by
  unfold latest
  by_cases hw : p.wrote handle = true
  · simp only [List.filter_cons, hw, if_true, List.getLast?_cons]
    cases hlast : (later.filter (·.wrote handle)).getLast? with
    | none => rfl
    | some q =>
      have hq : q.wrote handle = true := (List.mem_filter.mp (List.mem_of_getLast? hlast)).2
      cases hr : q.recordFor handle with
      | none => simp [recordFor_eq_none_iff.mp hr] at hq
      | some r => simp [hr]
  · simp only [List.filter_cons, hw, Bool.false_eq_true, if_false]
    have hnone : p.recordFor handle = none := recordFor_eq_none_iff.mpr (by simpa using hw)
    rw [hnone, Option.or_none]

/-- A snapshot that follows by the commits of a log reads as the log says, and below the log as the
snapshot before it. -/
theorem read_extendAll {s : Snapshot} (ordered : s.tree.root.Ordered) {log : List Published}
    (numbered : Numbered s.version log) (handle : Handle) :
    (s.extendAll (log.map writes)).read handle = (latest log handle).or (s.read handle) := by
  induction log generalizing s with
  | nil => rfl
  | cons p later ih =>
    obtain ⟨hversion, hlater⟩ := numbered
    rw [hversion] at hlater
    have hordered : (s.extend p.writes).tree.root.Ordered := HeapTree.ordered_insertAll _ ordered
    rw [List.map_cons, Snapshot.extendAll_cons, ih hordered hlater, latest_cons,
      Snapshot.read_extend ordered, Option.or_assoc, recordFor, hversion]

/-- Successive versions that do not wrap: keeping those up to `v` keeps a first part of the log. -/
theorem filter_le_eq_take {base : Version} {log : List Published} (numbered : Numbered base log)
    (room : base.toNat + log.length < 2 ^ 64) (v : Version) :
    log.filter (fun p => p.version ≤ v) = log.take (v.toNat - base.toNat) := by
  induction log generalizing base with
  | nil => simp
  | cons p later ih =>
    obtain ⟨hversion, hlater⟩ := numbered
    rw [List.length_cons] at room
    have hnext : p.version.toNat = base.toNat + 1 := by
      rw [hversion]
      exact Version.toNat_next (by omega)
    have hrest := ih hlater (by omega)
    by_cases hle : p.version ≤ v
    · have hlt := UInt64.le_iff_toNat_le.mp hle
      have htake : v.toNat - base.toNat = v.toNat - p.version.toNat + 1 := by omega
      rw [List.filter_cons_of_pos (by simpa using hle), hrest, htake, List.take_succ_cons]
    · have hgt : ¬ p.version.toNat ≤ v.toNat := fun h => hle (UInt64.le_iff_toNat_le.mpr h)
      have hzero : v.toNat - base.toNat = 0 := by omega
      have hzero' : v.toNat - p.version.toNat = 0 := by omega
      rw [List.filter_cons_of_neg (by simpa using hle), hrest, hzero, hzero']
      rfl

theorem Numbered.take {base : Version} {log : List Published} (numbered : Numbered base log)
    (n : Nat) : Numbered base (log.take n) := by
  induction log generalizing base n with
  | nil => simpa using numbered
  | cons p later ih =>
    cases n with
    | zero => trivial
    | succ n => exact ⟨numbered.1, ih numbered.2 n⟩

theorem Numbered.toNat_le {base : Version} {log : List Published} (numbered : Numbered base log)
    (room : base.toNat + log.length < 2 ^ 64) {p : Published} (hp : p ∈ log) :
    p.version.toNat ≤ base.toNat + log.length := by
  induction log generalizing base with
  | nil => cases hp
  | cons q later ih =>
    obtain ⟨hversion, hlater⟩ := numbered
    rw [List.length_cons] at room ⊢
    have hnext : q.version.toNat = base.toNat + 1 := by
      rw [hversion]
      exact Version.toNat_next (by omega)
    rcases List.mem_cons.mp hp with rfl | hp
    · omega
    · have := ih hlater (by omega) hp
      omega

/-- Every logged commit has left its snapshot in the chain. -/
theorem Numbered.exists_chain {s : Snapshot} {log : List Published}
    (numbered : Numbered s.version log) {p : Published} (hp : p ∈ log) :
    ∃ past ∈ (s.extendAll (log.map writes)).chain, past.version = p.version := by
  induction log generalizing s with
  | nil => cases hp
  | cons q later ih =>
    obtain ⟨hversion, hlater⟩ := numbered
    rcases List.mem_cons.mp hp with rfl | hp
    · exact ⟨s.extend p.writes, Snapshot.extendAll_take_mem_chain s _ 1, hversion.symm⟩
    · rw [hversion] at hlater
      exact ih (s := s.extend q.writes) hlater hp

theorem recordAt_eq_latest {base : Version} {log : List Published} (numbered : Numbered base log)
    (room : base.toNat + log.length < 2 ^ 64) (handle : Handle) (v : Version) :
    recordAt log handle v = latest (log.take (v.toNat - base.toNat)) handle := by
  rw [recordAt, latest, ← filter_le_eq_take numbered room v, List.filter_filter]
  simp only [Bool.and_comm]

end Published

namespace Heap

/-! ## What one call logs -/

/-- What a call adds to the log, judged by its answer. -/
def Rival.logged (call : Rival) : Except Error Version → Option Published
  | .ok v => if call.writes.isEmpty then none else some ⟨v, call.writes⟩
  | .error _ => none

/-- A call either leaves the head and the log alone, or publishes its writes as the next version. -/
theorem Rival.run_cases (call : Rival) (h : Heap) :
    (call.logged (call.run h).1 = none ∧ (call.run h).2.head = h.head) ∨
      (call.logged (call.run h).1 = some ⟨h.version.next, call.writes⟩ ∧
        (call.run h).2.head = h.head.extend call.writes) := by
  rw [Rival.run, result_commit]
  split
  · next hempty => exact .inl ⟨by simp [logged, hempty], rfl⟩
  · next hwrites =>
    split
    · exact .inl ⟨rfl, rfl⟩
    · exact .inr ⟨by simp [logged, hwrites], rfl⟩

/-! ## Runs -/

/-- The heap after some calls, one after another. -/
def runAll (calls : List Rival) (h : Heap) : Heap :=
  calls.foldl (fun h call => (call.run h).2) h

/-- The successful calls of a run that wrote something, in order. -/
def commitLog : List Rival → Heap → List Published
  | [], _ => []
  | call :: later, h =>
    (call.logged (call.run h).1).toList ++ commitLog later (call.run h).2

theorem commitLog_append (earlier later : List Rival) (h : Heap) :
    commitLog (earlier ++ later) h =
      commitLog earlier h ++ commitLog later (runAll earlier h) := by
  induction earlier generalizing h with
  | nil => rfl
  | cons call rest ih =>
    rw [List.cons_append, commitLog, commitLog, ih, List.append_assoc]
    rfl

/-- A run extends the head by what it logs, under successive versions. -/
theorem head_runAll (calls : List Rival) (h : Heap) :
    (runAll calls h).head = h.head.extendAll ((commitLog calls h).map Published.writes) ∧
      Published.Numbered h.version (commitLog calls h) := by
  induction calls generalizing h with
  | nil => exact ⟨rfl, trivial⟩
  | cons call later ih =>
    obtain ⟨hhead, hnumbered⟩ := ih (call.run h).2
    have hrun : runAll (call :: later) h = runAll later (call.run h).2 := rfl
    rw [hrun, hhead, commitLog]
    rcases call.run_cases h with ⟨hlog, hsame⟩ | ⟨hlog, hnew⟩
    · rw [version, hsame] at hnumbered
      rw [hlog, hsame]
      exact ⟨rfl, hnumbered⟩
    · rw [version, hnew] at hnumbered
      rw [hlog, hnew]
      exact ⟨rfl, rfl, hnumbered⟩

/-! ## A run on a fresh heap -/

section Fresh

variable (v0 : Version) (backoff : Backoff) (calls : List Rival)

theorem head_runAll_fresh :
    (runAll calls (ofVersion v0 backoff)).head =
      (Snapshot.genesis v0).extendAll
        ((commitLog calls (ofVersion v0 backoff)).map Published.writes) :=
  (head_runAll calls _).1

theorem numbered_commitLog : Published.Numbered v0 (commitLog calls (ofVersion v0 backoff)) :=
  (head_runAll calls (ofVersion v0 backoff)).2

theorem toNat_version_runAll
    (room : v0.toNat + (commitLog calls (ofVersion v0 backoff)).length < 2 ^ 64) :
    (runAll calls (ofVersion v0 backoff)).version.toNat =
      v0.toNat + (commitLog calls (ofVersion v0 backoff)).length := by
  rw [version, head_runAll_fresh, Snapshot.version_extendAll, List.length_map]
  exact Version.toNat_add_ofNat room

theorem chain_runAll
    (room : v0.toNat + (commitLog calls (ofVersion v0 backoff)).length < 2 ^ 64) :
    (runAll calls (ofVersion v0 backoff)).head.chain.map (·.version.toNat) =
      (List.range ((commitLog calls (ofVersion v0 backoff)).length + 1)).map fun k =>
        v0.toNat + (commitLog calls (ofVersion v0 backoff)).length - k := by
  have built : Snapshot.Built (fun _ => True) (runAll calls (ofVersion v0 backoff)).head := by
    rw [head_runAll_fresh]
    exact (Snapshot.Built.genesis v0).extendAll fun _ _ _ _ => trivial
  have hbase : (runAll calls (ofVersion v0 backoff)).head.base = v0 := by
    rw [head_runAll_fresh, Snapshot.base_extendAll]
    rfl
  have hdepth : (runAll calls (ofVersion v0 backoff)).head.depth =
      (commitLog calls (ofVersion v0 backoff)).length := by
    rw [head_runAll_fresh, Snapshot.depth_extendAll, List.length_map]
    exact Nat.zero_add _
  have hversions := built.chain_versions (by rw [hbase, hdepth]; exact room)
  rwa [hbase, hdepth] at hversions

/-- The snapshot at a version is the one after the logged commits that are not newer. -/
theorem snapshotAt_runAll
    (room : v0.toNat + (commitLog calls (ofVersion v0 backoff)).length < 2 ^ 64) (v : Version) :
    (runAll calls (ofVersion v0 backoff)).snapshotAt v =
      if v0 ≤ v then
        .ok ((Snapshot.genesis v0).extendAll
          (((commitLog calls (ofVersion v0 backoff)).take (v.toNat - v0.toNat)).map
            Published.writes))
      else .error (.snapshotTooOld v v0) := by
  rw [snapshotAt, head_runAll_fresh,
    Snapshot.asOf_extendAll v (by rw [List.length_map]; exact room), List.map_take]
  by_cases hv : v0 ≤ v
  · rw [if_pos hv]
    exact if_pos hv
  · rw [if_neg hv]
    exact (if_neg hv).trans (if_neg hv)

theorem snapshotAt_runAll_mem
    (room : v0.toNat + (commitLog calls (ofVersion v0 backoff)).length < 2 ^ 64) {v : Version}
    (hv : v0 ≤ v) :
    ∃ s ∈ (runAll calls (ofVersion v0 backoff)).head.chain,
      (runAll calls (ofVersion v0 backoff)).snapshotAt v = .ok s ∧
        s.version.toNat =
          min v.toNat (runAll calls (ofVersion v0 backoff)).version.toNat := by
  have hfound := snapshotAt_runAll v0 backoff calls room v
  rw [if_pos hv] at hfound
  refine ⟨_, ?_, hfound, ?_⟩
  · rw [head_runAll_fresh, List.map_take]
    exact Snapshot.extendAll_take_mem_chain _ _ _
  · have hle := UInt64.le_iff_toNat_le.mp hv
    rw [toNat_version_runAll v0 backoff calls room, Snapshot.version_extendAll, List.length_map,
      List.length_take]
    apply (Version.toNat_add_ofNat (v := v0) (by omega)).trans
    omega

/-- Reading an object at a version gives what the log says of it. -/
theorem readAt_runAll
    (room : v0.toNat + (commitLog calls (ofVersion v0 backoff)).length < 2 ^ 64)
    (handle : Handle) {v : Version} (hv : v0 ≤ v) :
    (runAll calls (ofVersion v0 backoff)).readAt handle v =
      .ok (Published.recordAt (commitLog calls (ofVersion v0 backoff)) handle v) := by
  have numbered := numbered_commitLog v0 backoff calls
  have hread := Published.read_extendAll (s := .genesis v0) Tree.ordered_empty
    (numbered.take (v.toNat - v0.toNat)) handle
  have hgenesis : (Snapshot.genesis v0).read handle = none := rfl
  rw [hgenesis, Option.or_none, ← Published.recordAt_eq_latest numbered room] at hread
  rw [readAt, snapshotAt_runAll v0 backoff calls room v, if_pos hv]
  exact congrArg Except.ok hread

end Fresh

/-- A heap is the log of its commits. After any calls on a fresh heap that starts at `v0`, with
room for their versions: the chain counts down from the newest version to `v0`; a snapshot is found
for every version from `v0` on, the newest one that is not newer, and for none before; reading an
object at a version gives the record that the log has for it there; and later calls change nothing
of what an earlier version reads. -/
theorem heap_eq_commitLog (v0 : Version) (backoff : Backoff) (earlier later : List Rival)
    (room : v0.toNat + (commitLog (earlier ++ later) (ofVersion v0 backoff)).length < 2 ^ 64) :
    let log := commitLog (earlier ++ later) (ofVersion v0 backoff)
    let past := runAll earlier (ofVersion v0 backoff)
    let heap := runAll (earlier ++ later) (ofVersion v0 backoff)
    heap.version.toNat = v0.toNat + log.length ∧
    heap.head.chain.map (·.version.toNat) =
      ((List.range (log.length + 1)).map fun k => heap.version.toNat - k) ∧
    (∀ v, v0 ≤ v → ∃ s ∈ heap.head.chain, heap.snapshotAt v = .ok s ∧
      s.version.toNat = min v.toNat heap.version.toNat) ∧
    (∀ v, v < v0 → heap.snapshotAt v = .error (.snapshotTooOld v v0)) ∧
    (∀ handle v, v0 ≤ v → heap.readAt handle v = .ok (Published.recordAt log handle v)) ∧
    (∀ handle v, v0 ≤ v → v ≤ past.version → heap.readAt handle v = past.readAt handle v) := by
  intro log past heap
  have hversion := toNat_version_runAll v0 backoff (earlier ++ later) room
  have hsplit : log = commitLog earlier (ofVersion v0 backoff) ++ commitLog later past :=
    commitLog_append earlier later _
  have hshorter : (commitLog earlier (ofVersion v0 backoff)).length ≤ log.length := by
    rw [hsplit, List.length_append]
    exact Nat.le_add_right _ _
  have hroom : v0.toNat + (commitLog earlier (ofVersion v0 backoff)).length < 2 ^ 64 :=
    Nat.lt_of_le_of_lt (Nat.add_le_add_left hshorter _) room
  refine ⟨hversion, ?_, fun v hv => ?_, fun v hv => ?_, fun handle v hv => ?_,
    fun handle v hv hpast => ?_⟩
  · rw [hversion]
    exact chain_runAll v0 backoff (earlier ++ later) room
  · exact snapshotAt_runAll_mem v0 backoff (earlier ++ later) room hv
  · have hnot : ¬ v0 ≤ v := by
      rw [UInt64.le_iff_toNat_le]
      have := UInt64.lt_iff_toNat_lt.mp hv
      omega
    exact (snapshotAt_runAll v0 backoff (earlier ++ later) room v).trans (if_neg hnot)
  · exact readAt_runAll v0 backoff (earlier ++ later) room handle hv
  · -- the log up to a published version is that of the earlier calls
    have hle := UInt64.le_iff_toNat_le.mp hpast
    rw [toNat_version_runAll v0 backoff earlier hroom] at hle
    have htake : log.take (v.toNat - v0.toNat) =
        (commitLog earlier (ofVersion v0 backoff)).take (v.toNat - v0.toNat) := by
      rw [hsplit, List.take_append_of_le_length (by omega)]
    rw [readAt_runAll v0 backoff (earlier ++ later) room handle hv,
      readAt_runAll v0 backoff earlier hroom handle hv,
      Published.recordAt_eq_latest (numbered_commitLog v0 backoff (earlier ++ later)) room,
      Published.recordAt_eq_latest (numbered_commitLog v0 backoff earlier) hroom]
    exact congrArg (fun log => Except.ok (Published.latest log handle)) htake

end Heap

end

namespace Heap

/-- The pending record of a counter. -/
def pendingCounter (handle : Nat) (n : Int64) : PendingRecord := .ofObject ⟨handle⟩ (.counter n)

/-- A commit that writes one handle twice, a call without writes, and one more commit. -/
def sampleEarlier : List Rival :=
  [{ writes := [pendingCounter 1 1, pendingCounter 1 2] }, { writes := [] },
    { writes := [pendingCounter 1 3] }]

/-- A call that conflicts, for its start knows handle 1 at version 6 only, and a commit. -/
def sampleLater : List Rival :=
  [{ start := some ((Snapshot.genesis 5).extend [pendingCounter 1 2]),
     writes := [pendingCounter 1 9] }, { writes := [pendingCounter 2 4] }]

/-- Of the two writes by one commit the second is read, and the conflicting call left no trace. -/
theorem heap_eq_commitLog_sample :
    let heap := runAll (sampleEarlier ++ sampleLater) (ofVersion 5)
    (5 : Version).toNat + (commitLog (sampleEarlier ++ sampleLater) (ofVersion 5)).length < 2 ^ 64 ∧
    heap.version.toNat = 8 ∧
    heap.readAt ⟨1⟩ 6 = .ok (some ((pendingCounter 1 2).stamp 6)) ∧
    heap.readAt ⟨2⟩ 7 = .ok none ∧
    heap.snapshotAt 4 = .error (.snapshotTooOld 4 5) := by
  intro heap
  have room : (5 : Version).toNat +
      (commitLog (sampleEarlier ++ sampleLater) (ofVersion 5)).length < 2 ^ 64 := by decide +kernel
  obtain ⟨hversion, -, -, hold, hread, -⟩ :=
    heap_eq_commitLog 5 .none sampleEarlier sampleLater room
  refine ⟨room, hversion.trans (by decide +kernel), ?_, ?_, hold 4 (by decide)⟩
  · rw [hread ⟨1⟩ 6 (by decide)]
    exact congrArg Except.ok (by decide +kernel)
  · rw [hread ⟨2⟩ 7 (by decide)]
    exact congrArg Except.ok (by decide +kernel)

end Heap

end TransactionalHeap
