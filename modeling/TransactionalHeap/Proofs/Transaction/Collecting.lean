import Mathlib.Data.List.Basic
import TransactionalHeap.Proofs.Transaction.Opening

/-!
# Collecting what a commit writes

The changed set of a transaction is what it attached, and what it opened for a change and has left
with other fields than it was loaded with. From a sound transaction a commit collects just this, in
ascending order, and what was opened and is unchanged becomes clean (`Transaction.collectWrites_eq`).
In whatever order the entries are met, it collects the same (`Transaction.collectFrom_perm`).
The writes are revisions of buffered objects, and none repeats what the snapshot has
(`Transaction.Due`).
-/
namespace TransactionalHeap

variable [Transactables]

namespace Entry

/-- The entry was attached, or it was opened for a change and its object no longer flattens to the
fields that were loaded. -/
def isChanged (e : Entry) : Bool :=
  match e.status with
  | .fresh => true
  | .dirty => e.object.map Object.dematerialize ≠ e.origin.map Record.fields
  | .clean | .committed | .conflict => false

/-- The object of an entry that a commit has to write. -/
def changed (e : Entry) : Option Object := if e.isChanged then e.object else none

/-- The entry once its changes are collected: one that was opened without being changed is clean. -/
def settled (e : Entry) : Entry :=
  if e.status = .dirty ∧ ¬ e.isChanged then { e with status := .clean } else e

variable {good : Object → Prop} {s : Snapshot} {h : Handle} {e : Entry}

theorem settled_of_changed (changed : e.isChanged) : e.settled = e :=
  if_neg fun h => h.2 changed

theorem changed_settled (e : Entry) : e.settled.changed = e.changed := by
  by_cases h : e.status = .dirty ∧ ¬ e.isChanged
  · have hclean : e.settled = { e with status := .clean } := if_pos h
    have hold : e.changed = none := if_neg h.2
    rw [hclean, hold]
    rfl
  · have hsame : e.settled = e := if_neg h
    rw [hsame]

theorem settled_settled (e : Entry) : e.settled.settled = e.settled := by
  by_cases h : e.status = .dirty ∧ ¬ e.isChanged
  · have hclean : e.settled = { e with status := .clean } := if_pos h
    rw [hclean]
    rfl
  · have hsame : e.settled = e := if_neg h
    rw [hsame, hsame]

/-- What is to be written is buffered, good, and differs from what is stored. -/
theorem Sound.of_changed (sound : e.Sound good s h) {o : Object}
    (ho : e.changed = some o) :
    good o ∧ e.buffered = some o ∧ ∀ r, s.read h = some r → ¬ r.Holds o := by
  cases sound with
  | fresh o' absent isGood =>
    cases ho
    refine ⟨isGood, rfl, fun r stored => ?_⟩
    rw [absent] at stored
    cases stored
  | loaded r object stored yielded => cases ho
  | changed r o' stored sameType isGood =>
    have hdiffers : o'.dematerialize ≠ r.fields := by
      intro hsame
      simp [Entry.changed, isChanged, hsame] at ho
    obtain rfl : o' = o := by simpa [Entry.changed, isChanged, hdiffers] using ho
    refine ⟨isGood, rfl, fun r' stored' hholds => ?_⟩
    rw [stored] at stored'
    cases stored'
    exact hdiffers hholds.2.2.symm

theorem Sound.settled (sound : e.Sound good s h) : e.settled.Sound good s h := by
  cases sound with
  | fresh o absent isGood => exact .fresh o absent isGood
  | loaded r object stored yielded => exact .loaded r object stored yielded
  | changed r o stored sameType isGood =>
    by_cases hsame : o.dematerialize = r.fields
    · have hclean : Entry.settled ⟨h, some o, some r, r.materializer, .dirty⟩ =
          ⟨h, some o, some r, r.materializer, .clean⟩ := by
        simp [Entry.settled, isChanged, hsame]
      rw [hclean]
      refine .loaded r (some o) stored fun o' ho' => ?_
      cases ho'
      exact ⟨isGood, sameType, .inr hsame⟩
    · rw [settled_of_changed (by simp [isChanged, hsame])]
      exact .changed r o stored sameType isGood

/-- What a commit writes for an entry, and what becomes of the entry. -/
theorem Sound.prepareWrite_eq (stores : s.Stores good) (sound : e.Sound good s h) :
    e.prepareWrite = .ok (e.changed.map (.ofObject h), e.settled) := by
  cases sound with
  | fresh o absent isGood => rfl
  | loaded r object stored yielded => rfl
  | changed r o stored sameType isGood =>
    have hmaterializer : r.materializer = ⟨o.type⟩ := by
      rw [stores.materializer_eq stored, sameType]
    by_cases hsame : o.dematerialize = r.fields
    · simp [Entry.prepareWrite, EntryStatus.isWriteCandidate, live, isUnchanged, Record.sameFields,
        Entry.changed, isChanged, Entry.settled, sameType, hsame, bind, Except.bind, pure,
        Except.pure]
    · simp [Entry.prepareWrite, EntryStatus.isWriteCandidate, live, isUnchanged, Record.sameFields,
        Entry.changed, isChanged, Entry.settled, hsame, Ne.symm hsame, bind, Except.bind, pure,
        Except.pure, PendingRecord.ofObject, hmaterializer]

end Entry

namespace Transaction

variable {good : Object → Prop} {t : Transaction}

/-- What a commit of the transaction has to write. -/
def changed (t : Transaction) : SortedMap Handle Object := t.entries.filterMap fun _ e => e.changed

/-- The changes as revisions to come, ascending by handle. -/
def pendingWrites (t : Transaction) : List PendingRecord :=
  t.changed.entries.map fun binding => .ofObject binding.1 binding.2

/-- The transaction once its changes are collected. -/
def settled (t : Transaction) : Transaction :=
  { t with entries := t.entries.map fun _ e => e.settled }

theorem find?_changed (t : Transaction) (h : Handle) :
    t.changed.find? h = (t.entries.find? h).bind Entry.changed :=
  SortedMap.find?_filterMap _ _ _

theorem mem_pendingWrites_iff {w : PendingRecord} :
    w ∈ t.pendingWrites ↔ ∃ o, t.changed.find? w.handle = some o ∧ w = .ofObject w.handle o := by
  simp only [pendingWrites, List.mem_map, Prod.exists, SortedMap.mem_entries_iff]
  constructor
  · rintro ⟨h, o, ho, rfl⟩
    exact ⟨o, ho, rfl⟩
  · rintro ⟨o, ho, hw⟩
    exact ⟨w.handle, o, ho, hw.symm⟩

theorem pendingWrites_eq_nil_iff : t.pendingWrites = [] ↔ t.changed = ∅ := by
  rw [pendingWrites, List.map_eq_nil_iff]
  constructor
  · intro hentries
    apply SortedMap.ext_find?
    intro h
    cases hfound : t.changed.find? h with
    | none => rfl
    | some o =>
      rw [← SortedMap.mem_entries_iff, hentries] at hfound
      cases hfound
  · intro hempty
    rw [hempty]
    rfl

theorem settled_sound (sound : t.Sound good) : t.settled.Sound good where
  stores := sound.stores
  frames := sound.frames
  entries h e he := by
    rw [settled, SortedMap.find?_map] at he
    obtain ⟨e', he', rfl⟩ := Option.map_eq_some_iff.mp he
    exact (sound.entries h e' he').settled

/-- Collecting from the listed entries: the changes among them in list order, and they are settled. -/
theorem collectFrom_eq (handles : List Handle) (sound : t.Sound good) :
    collectFrom handles t = .ok
      (handles.filterMap fun h => (t.changed.find? h).map (.ofObject h))
      { t with entries := t.entries.map fun h e => if h ∈ handles then e.settled else e } := by
  induction handles generalizing t with
  | nil =>
    have hsame : (t.entries.map fun h e => if h ∈ ([] : List Handle) then e.settled else e) =
        t.entries := by
      apply SortedMap.ext_find?
      intro h
      rw [SortedMap.find?_map]
      simp
    rw [hsame]
    rfl
  | cons h later ih =>
    cases hfound : t.entries.find? h with
    | none =>
      have hentries : (t.entries.map fun other e =>
          if other ∈ h :: later then e.settled else e) =
          t.entries.map fun other e => if other ∈ later then e.settled else e := by
        apply SortedMap.ext_find?
        intro other
        rw [SortedMap.find?_map, SortedMap.find?_map]
        by_cases hsame : other = h
        · rw [hsame, hfound]
          rfl
        · simp [hsame]
      rw [List.filterMap_cons_none (by rw [find?_changed, hfound]; rfl), hentries, ← ih sound]
      apply (bind_of_ok rfl).trans
      simp only [hfound]
    | some e =>
      have hsound := sound.entries h e hfound
      have hchanged : (t.put h e.settled).changed = t.changed := by
        apply SortedMap.ext_find?
        intro other
        rw [find?_changed, find?_changed, put, SortedMap.find?_insert]
        split
        · next hrank =>
          rw [← Ranked.rank_injective hrank, hfound, Option.bind_some, Option.bind_some,
            Entry.changed_settled]
        · rfl
      have hentries : ((t.put h e.settled).entries.map fun other e =>
          if other ∈ later then e.settled else e) =
          t.entries.map fun other e => if other ∈ h :: later then e.settled else e := by
        apply SortedMap.ext_find?
        intro other
        rw [SortedMap.find?_map, SortedMap.find?_map, put]
        by_cases hsame : other = h
        · rw [hsame, SortedMap.find?_insert_self, hfound]
          simp [Entry.settled_settled]
        · rw [SortedMap.find?_insert_of_ne _ _ hsame]
          simp [hsame]
      have hlater := ih (sound.put (hsound.settled))
      rw [hchanged, hentries] at hlater
      apply (bind_of_ok rfl).trans
      simp only [hfound, hsound.prepareWrite_eq sound.stores]
      refine (bind_of_ok rfl).trans ((bind_of_ok setEntry_eq).trans ((bind_of_ok hlater).trans ?_))
      rw [List.filterMap_cons, find?_changed, hfound, Option.bind_some]
      cases e.changed <;> rfl

theorem pendingWrites_eq (t : Transaction) : t.pendingWrites =
    t.entries.keys.filterMap fun h => (t.changed.find? h).map (.ofObject h) := by
  rw [pendingWrites, changed, SortedMap.filterMap, SortedMap.keys, List.filterMap_map,
    List.map_filterMap]
  refine List.filterMap_congr ?_
  rintro ⟨h, e⟩ hmem
  have hfound := SortedMap.mem_entries_iff.mp hmem
  rw [Function.comp_apply]
  change _ = (t.changed.find? h).map _
  rw [find?_changed, hfound, Option.bind_some, Option.map_map]
  rfl

/-- However all the entries are listed, the same writes are collected, in that order, and the same is
settled. -/
theorem collectFrom_perm (sound : t.Sound good) {listed : List Handle}
    (perm : listed.Perm t.entries.keys) :
    ∃ writes, collectFrom listed t = .ok writes t.settled ∧ writes.Perm t.pendingWrites := by
  have hentries : (t.entries.map fun h e => if h ∈ listed then e.settled else e) =
      t.entries.map fun _ e => e.settled := by
    apply SortedMap.ext_find?
    intro h
    rw [SortedMap.find?_map, SortedMap.find?_map]
    cases hfound : t.entries.find? h with
    | none => rfl
    | some e =>
      have hlisted : h ∈ listed := perm.mem_iff.mpr (SortedMap.mem_keys_iff.mpr ⟨e, hfound⟩)
      simp [hlisted]
  have hcollect := collectFrom_eq listed sound
  rw [hentries] at hcollect
  rw [pendingWrites_eq]
  exact ⟨_, hcollect, perm.filterMap _⟩

/-- A commit writes the changed set, in handle order. -/
theorem collectWrites_eq (sound : t.Sound good) :
    collectWrites t = .ok t.pendingWrites t.settled := by
  obtain ⟨writes, hcollect, -⟩ := collectFrom_perm sound (List.Perm.refl t.entries.keys)
  have hwrites := collectFrom_eq t.entries.keys sound
  rw [hcollect, ← pendingWrites_eq] at hwrites
  obtain ⟨rfl, -⟩ := EStateM.Result.ok.inj hwrites
  exact (bind_of_ok rfl).trans hcollect

/-- A write that a commit of the transaction has to make. -/
structure Due (good : Object → Prop) (t : Transaction) (w : PendingRecord) (o : Object) : Prop where
  isGood : good o
  eq : w = .ofObject w.handle o
  buffered : (Entries.overlay t.entries).find? w.handle = some o
  differs : ∀ r, t.snapshot.read w.handle = some r → ¬ r.Holds o

theorem due_of_mem_pendingWrites (sound : t.Sound good) {w : PendingRecord}
    (hw : w ∈ t.pendingWrites) : ∃ o, Due good t w o := by
  obtain ⟨o, ho, heq⟩ := mem_pendingWrites_iff.mp hw
  rw [find?_changed] at ho
  obtain ⟨e, he, hchanged⟩ := Option.bind_eq_some_iff.mp ho
  obtain ⟨isGood, hbuffered, differs⟩ := (sound.entries w.handle e he).of_changed hchanged
  refine ⟨o, isGood, heq, ?_, differs⟩
  rw [Entries.find?_overlay, he]
  exact hbuffered

end Transaction

end TransactionalHeap
