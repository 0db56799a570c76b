import Mathlib.Algebra.Group.Nat.Defs
import TransactionalHeap.Proofs.Tree.Bindings
import TransactionalHeap.Snapshot

/-!
# Snapshots built by commits

Every snapshot of a heap descends from an empty first one by extensions. From that alone follow the
version of each snapshot, where a record can come from, what an extension changes, and that two
snapshots of one history which show the same version of an object hold the same record of it.

Versions are 64-bit words that wrap, so a snapshot is placed by its depth, the number of commits
before it. Depths below `2 ^ 64` have different versions, wherever the history starts.
-/
namespace TransactionalHeap

theorem Version.toNat_next {v : Version} (h : v.toNat + 1 < 2 ^ 64) : v.next.toNat = v.toNat + 1 := by
  simp only [Version.next, UInt64.toNat_add, UInt64.toNat_one]
  omega

theorem Version.next_le_iff {v u : Version} (h : v.toNat + 1 < 2 ^ 64) : v.next ≤ u ↔ v < u := by
  rw [UInt64.le_iff_toNat_le, UInt64.lt_iff_toNat_lt, toNat_next h]
  omega

/-- Where there is a version above, the next one is not above it. -/
theorem Version.next_le_of_lt {v u : Version} (h : v < u) : v.next ≤ u :=
  (next_le_iff (Nat.lt_of_le_of_lt (UInt64.lt_iff_toNat_lt.mp h) u.toNat_lt)).mpr h

theorem Version.next_add_ofNat (v : Version) (k : Nat) :
    Version.next (v + UInt64.ofNat k) = v + UInt64.ofNat (k + 1) := by
  simp [Version.next, UInt64.add_assoc, UInt64.ofNat_add]

theorem Version.add_ofNat_inj {v : Version} {j k : Nat} (hj : j < 2 ^ 64) (hk : k < 2 ^ 64)
    (h : v + UInt64.ofNat j = v + UInt64.ofNat k) : j = k := by
  have hsame : UInt64.ofNat j = UInt64.ofNat k := by simpa using h
  have hnat := congrArg UInt64.toNat hsame
  rwa [UInt64.toNat_ofNat_of_lt' hj, UInt64.toNat_ofNat_of_lt' hk] at hnat

theorem Version.toNat_add_ofNat {v : Version} {k : Nat} (h : v.toNat + k < 2 ^ 64) :
    (v + UInt64.ofNat k).toNat = v.toNat + k := by
  rw [UInt64.toNat_add, UInt64.toNat_ofNat_of_lt' (by show k < 2 ^ 64; omega)]
  omega

variable [Transactables]

/-- The last of the writes to a handle, the one that counts. -/
def lastWrite (handle : Handle) (writes : List PendingRecord) : Option PendingRecord :=
  (writes.filter (·.handle = handle)).getLast?

theorem lastWrite_mem {handle : Handle} {writes : List PendingRecord} {w : PendingRecord}
    (h : lastWrite handle writes = some w) : w ∈ writes ∧ w.handle = handle := by
  have hmem := List.mem_of_getLast? h
  simpa using hmem

theorem lastWrite_eq_none_iff {handle : Handle} {writes : List PendingRecord} :
    lastWrite handle writes = none ↔ ∀ w ∈ writes, w.handle ≠ handle := by
  simp [lastWrite]

namespace Snapshot

/-- Made from a first snapshot by commits all of whose writes satisfy `ok`. -/
inductive Built (ok : PendingRecord → Prop) : Snapshot → Prop
  | genesis (v : Version) : Built ok (.genesis v)
  | extend {s : Snapshot} {writes : List PendingRecord} (before : Built ok s)
      (accepted : ∀ w ∈ writes, ok w) : Built ok (s.extend writes)

/-- The version of the first snapshot. -/
def base : Snapshot → Version
  | genesis v => v
  | commit _ _ parent => parent.base

@[simp] theorem base_extend (s : Snapshot) (writes : List PendingRecord) :
    (s.extend writes).base = s.base := rfl

@[simp] theorem depth_extend (s : Snapshot) (writes : List PendingRecord) :
    (s.extend writes).depth = s.depth + 1 := rfl

@[simp] theorem version_extend (s : Snapshot) (writes : List PendingRecord) :
    (s.extend writes).version = s.version.next := rfl

@[simp] theorem chain_extend (s : Snapshot) (writes : List PendingRecord) :
    (s.extend writes).chain = s.extend writes :: s.chain := rfl

theorem read_eq_stored (s : Snapshot) (handle : Handle) :
    s.read handle = (s.tree.stored handle).map Prod.fst :=
  HeapTree.get?_eq_stored s.tree handle

theorem versionOf_eq_stored (s : Snapshot) (handle : Handle) :
    s.versionOf handle = (s.tree.stored handle).map Prod.snd := by
  simp only [versionOf, HeapTree.stored, Option.map_map]
  rfl

theorem contains_eq_isSome_read (s : Snapshot) (handle : Handle) :
    s.contains handle = (s.read handle).isSome := by
  simp [contains, read, HeapTree.get?]

theorem mem_chain_self (s : Snapshot) : s ∈ s.chain := by
  cases s <;> exact List.mem_cons_self

/-- A commit replaces what it writes and keeps the rest. -/
theorem stored_extend {s : Snapshot} (ordered : s.tree.root.Ordered)
    (writes : List PendingRecord) (handle : Handle) :
    (s.extend writes).tree.stored handle =
      ((lastWrite handle writes).map fun w => (w.stamp s.version.next, s.version.next)).or
        (s.tree.stored handle) := by
  have hinsert := HeapTree.stored_insertAll (writes.map (·.stamp s.version.next)) handle ordered
  have hlast : ((writes.map (·.stamp s.version.next)).filter (·.handle = handle)).getLast? =
      (lastWrite handle writes).map (·.stamp s.version.next) := by
    rw [List.filter_map, List.getLast?_map]
    rfl
  apply hinsert.trans
  rw [hlast, Option.map_map]
  rfl

theorem read_extend {s : Snapshot} (ordered : s.tree.root.Ordered)
    (writes : List PendingRecord) (handle : Handle) :
    (s.extend writes).read handle =
      ((lastWrite handle writes).map (·.stamp s.version.next)).or (s.read handle) := by
  rw [read_eq_stored, read_eq_stored, stored_extend ordered]
  cases lastWrite handle writes <;> simp

namespace Built

variable {ok : PendingRecord → Prop} {s : Snapshot}

theorem ordered (built : Built ok s) : s.tree.root.Ordered := by
  induction built with
  | genesis v => exact Tree.ordered_empty
  | extend _ _ ih => exact HeapTree.ordered_insertAll _ ih

theorem version_eq (built : Built ok s) : s.version = s.base + UInt64.ofNat s.depth := by
  induction built with
  | genesis v => exact (UInt64.add_zero v).symm
  | extend _ _ ih => rw [version_extend, ih, Version.next_add_ofNat, base_extend, depth_extend]

/-- Where a stored record comes from: a write of some commit of the history, stamped with the
version of that commit. -/
theorem provenance (built : Built ok s) {handle : Handle} {r : Record} {v : Version}
    (h : s.tree.stored handle = some (r, v)) :
    ∃ w k, ok w ∧ w.handle = handle ∧ r = w.stamp v ∧
      1 ≤ k ∧ k ≤ s.depth ∧ v = s.base + UInt64.ofNat k := by
  induction built with
  | genesis base => cases h
  | @extend s writes before accepted ih =>
    rw [stored_extend before.ordered] at h
    cases hlast : lastWrite handle writes with
    | none =>
      rw [hlast] at h
      obtain ⟨w, k, hw, hhandle, hr, hk, hdepth, hv⟩ := ih (by simpa using h)
      exact ⟨w, k, hw, hhandle, hr, hk, Nat.le_succ_of_le hdepth, hv⟩
    | some w =>
      obtain ⟨hmem, hhandle⟩ := lastWrite_mem hlast
      simp only [hlast, Option.map_some, Option.some_or, Option.some.injEq, Prod.mk.injEq] at h
      obtain ⟨rfl, rfl⟩ := h
      refine ⟨w, s.depth + 1, accepted w hmem, hhandle, rfl, by omega, Nat.le_refl _, ?_⟩
      rw [before.version_eq, Version.next_add_ofNat, base_extend]

/-- The version that a search shows is the one in the record. -/
theorem versionOf_eq_read (built : Built ok s) (handle : Handle) :
    s.versionOf handle = (s.read handle).map Record.version := by
  rw [versionOf_eq_stored, read_eq_stored]
  cases h : s.tree.stored handle with
  | none => rfl
  | some found =>
    obtain ⟨w, k, -, -, hr, -⟩ := built.provenance (r := found.1) (v := found.2) h
    simp only [Option.map_some, hr, PendingRecord.stamp]

/-- A record is stored under its own handle, and one of the commits wrote it. -/
theorem written (built : Built ok s) {handle : Handle} {r : Record}
    (h : s.read handle = some r) : ∃ w, ok w ∧ w.handle = handle ∧ r = w.stamp r.version := by
  rw [read_eq_stored] at h
  obtain ⟨found, hfound, rfl⟩ := Option.map_eq_some_iff.mp h
  obtain ⟨w, k, hw, hhandle, hr, -⟩ := built.provenance (r := found.1) (v := found.2) hfound
  exact ⟨w, hw, hhandle, by rw [hr]; rfl⟩

theorem read_handle (built : Built ok s) {handle : Handle} {r : Record}
    (h : s.read handle = some r) : r.handle = handle := by
  obtain ⟨w, -, hhandle, hr⟩ := built.written h
  rw [hr]
  exact hhandle

/-! ## The past of a snapshot -/

/-- What a snapshot descends from has been built alike, from the same start, with no more
commits. -/
theorem of_mem_chain (built : Built ok s) {past : Snapshot} (h : past ∈ s.chain) :
    Built ok past ∧ past.base = s.base ∧ past.depth ≤ s.depth := by
  induction built with
  | genesis v =>
    obtain rfl : past = .genesis v := by simpa [chain] using h
    exact ⟨.genesis v, rfl, Nat.le_refl _⟩
  | @extend s writes before accepted ih =>
    rcases List.mem_cons.mp h with rfl | h
    · exact ⟨.extend before accepted, rfl, Nat.le_refl _⟩
    · obtain ⟨hpast, hbase, hdepth⟩ := ih h
      exact ⟨hpast, hbase, Nat.le_succ_of_le hdepth⟩

/-- Less may be told of what the commits wrote. -/
theorem mono {ok' : PendingRecord → Prop} (built : Built ok s) (imp : ∀ w, ok w → ok' w) :
    Built ok' s := by
  induction built with
  | genesis v => exact .genesis v
  | extend _ hwrites ih => exact ih.extend fun w hw => imp w (hwrites w hw)

theorem weaken (built : Built ok s) : Built (fun _ => True) s := built.mono fun _ _ => trivial

/-- An object that has the same version in two snapshots of one history has the same record in
both. -/
theorem read_eq_of_versionOf_eq (built : Built ok s) (room : s.depth < 2 ^ 64)
    {past : Snapshot} (hpast : past ∈ s.chain) {handle : Handle} {v : Version}
    (hthen : past.versionOf handle = some v) (hnow : s.versionOf handle = some v) :
    past.read handle = s.read handle := by
  induction built with
  | genesis base =>
    obtain rfl : past = .genesis base := by simpa [chain] using hpast
    rfl
  | @extend s writes before accepted ih =>
    rcases List.mem_cons.mp hpast with rfl | hpast
    · rfl
    rw [depth_extend] at room
    cases hlast : lastWrite handle writes with
    | none =>
      have hkept : (s.extend writes).tree.stored handle = s.tree.stored handle := by
        rw [stored_extend before.ordered, hlast]
        rfl
      rw [versionOf_eq_stored, hkept, ← versionOf_eq_stored] at hnow
      rw [ih (by omega) hpast hnow, read_eq_stored, read_eq_stored, hkept]
    | some w =>
      -- written anew since, so its version is that of a depth `past` does not reach
      obtain ⟨hbuilt, hbase, hdepth⟩ := before.of_mem_chain hpast
      rw [versionOf_eq_stored, stored_extend before.ordered, hlast] at hnow
      rw [versionOf_eq_stored] at hthen
      obtain ⟨found, hfound, rfl⟩ := Option.map_eq_some_iff.mp hthen
      obtain ⟨_, k, -, -, -, -, hk, hv⟩ := hbuilt.provenance (r := found.1) (v := found.2) hfound
      have hnew : s.version.next = found.2 := by simpa using hnow
      rw [hv, hbase, before.version_eq, Version.next_add_ofNat] at hnew
      have := Version.add_ofNat_inj (by omega) (by omega) hnew
      omega

end Built

/-- The versions of a history that does not wrap count down to its start without a gap. -/
theorem Built.chain_versions {ok : PendingRecord → Prop} {s : Snapshot} (built : Built ok s)
    (room : s.base.toNat + s.depth < 2 ^ 64) :
    s.chain.map (·.version.toNat) =
      (List.range (s.depth + 1)).map fun k => s.base.toNat + s.depth - k := by
  induction built with
  | genesis v => rfl
  | @extend s writes before accepted ih =>
    rw [base_extend, depth_extend] at room ⊢
    have hversion : s.version.next.toNat = s.base.toNat + (s.depth + 1) := by
      rw [before.version_eq, Version.next_add_ofNat, Version.toNat_add_ofNat room]
    rw [chain_extend, List.map_cons, ih (by omega), List.range_succ_eq_map (n := s.depth + 1),
      List.map_cons, List.map_map, version_extend, hversion]
    congr 1
    apply List.map_congr_left
    intro k _
    simp only [Function.comp_apply]
    omega

/-! ## When an object was written -/

/-- The version of the newest commit that wrote an object, zero where none has. -/
def written (s : Snapshot) (h : Handle) : Version := (s.versionOf h).getD 0

theorem lt_written_iff {s : Snapshot} {h : Handle} {v : Version} :
    v < s.written h ↔ ∃ now, s.versionOf h = some now ∧ v < now := by
  unfold written
  cases s.versionOf h with
  | none => simp
  | some now => simp

theorem written_extend {s : Snapshot} (ordered : s.tree.root.Ordered) (writes : List PendingRecord)
    (h : Handle) : (s.extend writes).written h =
      if (∃ w ∈ writes, w.handle = h) then s.version.next else s.written h := by
  have hnone : (∃ w ∈ writes, w.handle = h) ↔ lastWrite h writes ≠ none := by
    rw [Ne, lastWrite_eq_none_iff]
    simp
  simp only [hnone, written, versionOf_eq_stored, stored_extend ordered]
  cases lastWrite h writes <;> simp

variable {ok : PendingRecord → Prop} {s : Snapshot}

theorem Built.toNat_version (built : Built ok s) (room : s.base.toNat + s.depth < 2 ^ 64) :
    s.version.toNat = s.base.toNat + s.depth := by
  rw [built.version_eq, Version.toNat_add_ofNat room]

theorem Built.toNat_past_le (built : Built ok s) (room : s.base.toNat + s.depth < 2 ^ 64)
    {past : Snapshot} (hpast : past ∈ s.chain) :
    past.version.toNat ≤ s.base.toNat + s.depth := by
  obtain ⟨hbuilt, hbase, hdepth⟩ := built.of_mem_chain hpast
  rw [hbuilt.toNat_version (by rw [hbase]; omega), hbase]
  exact Nat.add_le_add_left hdepth _

/-- In a history that does not wrap, nothing was written after the snapshot's own version. -/
theorem Built.written_le (built : Built ok s) (room : s.base.toNat + s.depth < 2 ^ 64)
    (h : Handle) : s.written h ≤ s.version := by
  rw [Snapshot.written, versionOf_eq_stored]
  cases hstored : s.tree.stored h with
  | none => exact UInt64.zero_le
  | some found =>
    obtain ⟨w, k, -, -, -, -, hdepth, hv⟩ := built.provenance (r := found.1) (v := found.2) hstored
    have hnat : found.2.toNat = s.base.toNat + k := by
      rw [hv, Version.toNat_add_ofNat (by omega)]
    rw [UInt64.le_iff_toNat_le, built.toNat_version room]
    change found.2.toNat ≤ _
    omega

theorem Built.written_lt_next (built : Built ok s) (room : s.base.toNat + s.depth + 1 < 2 ^ 64)
    (h : Handle) : s.written h < s.version.next := by
  have hle := UInt64.le_iff_toNat_le.mp (built.written_le (by omega) h)
  have hversion := built.toNat_version (by omega)
  rw [UInt64.lt_iff_toNat_lt, Version.toNat_next (by omega)]
  omega

/-- A later snapshot was not written to earlier. -/
theorem Built.written_extend_le (built : Built ok s) (room : s.base.toNat + s.depth + 1 < 2 ^ 64)
    (writes : List PendingRecord) (h : Handle) : s.written h ≤ (s.extend writes).written h := by
  rw [written_extend built.ordered]
  split
  · exact UInt64.le_of_lt (built.written_lt_next room h)
  · exact UInt64.le_refl _

theorem Built.written_mono (built : Built ok s) (room : s.base.toNat + s.depth < 2 ^ 64)
    {past : Snapshot} (hpast : past ∈ s.chain) (h : Handle) : past.written h ≤ s.written h := by
  induction built with
  | genesis v =>
    obtain rfl : past = .genesis v := by simpa [chain] using hpast
    exact UInt64.le_refl _
  | @extend s writes before accepted ih =>
    rw [base_extend, depth_extend] at room
    rcases List.mem_cons.mp hpast with rfl | hpast
    · exact UInt64.le_refl _
    · exact UInt64.le_trans (ih (by omega) hpast)
        (before.written_extend_le (by omega) writes h)

/-- No object is ever removed. -/
theorem Built.versionOf_mono (built : Built ok s) {past : Snapshot} (hpast : past ∈ s.chain)
    {h : Handle} {v : Version} (stored : past.versionOf h = some v) :
    ∃ now, s.versionOf h = some now := by
  induction built with
  | genesis v' =>
    obtain rfl : past = .genesis v' := by simpa [chain] using hpast
    exact ⟨v, stored⟩
  | @extend s writes before accepted ih =>
    rcases List.mem_cons.mp hpast with rfl | hpast
    · exact ⟨v, stored⟩
    · obtain ⟨now, hnow⟩ := ih hpast
      rw [versionOf_eq_stored] at hnow
      rw [versionOf_eq_stored, stored_extend before.ordered]
      cases lastWrite h writes with
      | none => exact ⟨now, hnow⟩
      | some w => exact ⟨s.version.next, rfl⟩

/-! ## Several commits in a row -/

/-- The snapshot after several commits, each given by its writes. -/
def extendAll (s : Snapshot) (commits : List (List PendingRecord)) : Snapshot :=
  commits.foldl extend s

@[simp] theorem extendAll_nil (s : Snapshot) : s.extendAll [] = s := rfl

@[simp] theorem extendAll_cons (s : Snapshot) (writes : List PendingRecord)
    (later : List (List PendingRecord)) :
    s.extendAll (writes :: later) = (s.extend writes).extendAll later := rfl

theorem extendAll_append (s : Snapshot) (earlier later : List (List PendingRecord)) :
    s.extendAll (earlier ++ later) = (s.extendAll earlier).extendAll later :=
  List.foldl_append

theorem base_extendAll (s : Snapshot) (commits : List (List PendingRecord)) :
    (s.extendAll commits).base = s.base := by
  induction commits generalizing s with
  | nil => rfl
  | cons writes later ih => exact ih (s.extend writes)

theorem depth_extendAll (s : Snapshot) (commits : List (List PendingRecord)) :
    (s.extendAll commits).depth = s.depth + commits.length := by
  induction commits generalizing s with
  | nil => rfl
  | cons writes later ih =>
    rw [extendAll_cons, ih, depth_extend, List.length_cons]
    omega

theorem mem_chain_extendAll {s past : Snapshot} (commits : List (List PendingRecord))
    (h : past ∈ s.chain) : past ∈ (s.extendAll commits).chain := by
  induction commits generalizing s with
  | nil => exact h
  | cons writes later ih => exact ih (s := s.extend writes) (List.mem_cons_of_mem _ h)

/-- Every first part of the commits has left its snapshot in the chain. -/
theorem extendAll_take_mem_chain (s : Snapshot) (commits : List (List PendingRecord)) (n : Nat) :
    s.extendAll (commits.take n) ∈ (s.extendAll commits).chain := by
  have hsplit : s.extendAll commits = (s.extendAll (commits.take n)).extendAll (commits.drop n) := by
    rw [← extendAll_append, List.take_append_drop]
  rw [hsplit]
  exact mem_chain_extendAll _ (mem_chain_self _)

/-- What later commits leave in the chain is an older snapshot, or what some first part of them has
made. -/
theorem mem_chain_extendAll_cases {s past : Snapshot} {commits : List (List PendingRecord)}
    (h : past ∈ (s.extendAll commits).chain) :
    past ∈ s.chain ∨ ∃ n, past = s.extendAll (commits.take n) := by
  induction commits generalizing s with
  | nil => exact .inl h
  | cons writes later ih =>
    rcases ih (s := s.extend writes) h with hpast | ⟨n, rfl⟩
    · rcases List.mem_cons.mp hpast with rfl | hpast
      · exact .inr ⟨1, rfl⟩
      · exact .inl hpast
    · exact .inr ⟨n + 1, rfl⟩

theorem Built.extendAll {ok : PendingRecord → Prop} {s : Snapshot} (built : Built ok s)
    {commits : List (List PendingRecord)} (accepted : ∀ writes ∈ commits, ∀ w ∈ writes, ok w) :
    Built ok (s.extendAll commits) := by
  induction commits generalizing s with
  | nil => exact built
  | cons writes later ih =>
    apply ih (built.extend (accepted writes List.mem_cons_self))
    intro ws hws
    exact accepted ws (List.mem_cons_of_mem _ hws)

theorem version_extendAll {s : Snapshot} (commits : List (List PendingRecord)) :
    (s.extendAll commits).version = s.version + UInt64.ofNat commits.length := by
  induction commits generalizing s with
  | nil => exact (UInt64.add_zero s.version).symm
  | cons writes later ih =>
    rw [extendAll_cons, ih, version_extend, Version.next, List.length_cons, UInt64.add_assoc,
      Nat.add_comm, UInt64.ofNat_add]
    rfl

theorem asOf_of_le {s : Snapshot} {v : Version} (h : s.version ≤ v) : s.asOf v = .ok s := by
  cases s <;> exact if_pos h

theorem asOf_extend_of_lt {s : Snapshot} {v : Version} (writes : List PendingRecord)
    (h : ¬ s.version.next ≤ v) : (s.extend writes).asOf v = s.asOf v :=
  if_neg h

/-- Looking a version up among later commits: the walk ends right after the commits that are not
newer, or goes on below where they start. -/
theorem asOf_extendAll {s : Snapshot} {commits : List (List PendingRecord)} (v : Version)
    (room : s.version.toNat + commits.length < 2 ^ 64) :
    (s.extendAll commits).asOf v =
      if s.version ≤ v then .ok (s.extendAll (commits.take (v.toNat - s.version.toNat)))
      else s.asOf v := by
  induction commits generalizing s with
  | nil =>
    split
    · next h => simpa using asOf_of_le h
    · rfl
  | cons writes later ih =>
    rw [List.length_cons] at room
    have hnext : s.version.next.toNat = s.version.toNat + 1 := Version.toNat_next (by omega)
    rw [extendAll_cons, ih (s := s.extend writes) (by rw [version_extend, hnext]; omega),
      version_extend]
    by_cases hle : s.version.next ≤ v
    · have hlt : s.version.toNat < v.toNat := by
        have := UInt64.le_iff_toNat_le.mp hle
        omega
      have htake : v.toNat - s.version.toNat = v.toNat - s.version.next.toNat + 1 := by omega
      rw [if_pos hle, if_pos (UInt64.le_iff_toNat_le.mpr (Nat.le_of_lt hlt)), htake,
        List.take_succ_cons, extendAll_cons]
    · rw [if_neg hle, asOf_extend_of_lt writes hle]
      split
      · next hle' =>
        have hbelow : ¬ s.version.next.toNat ≤ v.toNat := fun h =>
          hle (UInt64.le_iff_toNat_le.mpr h)
        have hsub : v.toNat - s.version.toNat = 0 := by omega
        rw [asOf_of_le hle', hsub]
        rfl
      · rfl

end Snapshot

end TransactionalHeap
