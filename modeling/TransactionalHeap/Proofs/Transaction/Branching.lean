import TransactionalHeap.Proofs.Transaction.GoingOn

/-!
# The rollback of a branch

A branch that is left with the open branches as it found them can be rolled back
(`Transaction.Sound.rolledBack`). The entries are then those of the time when it was opened, with what
was read since as the only addition (`Transaction.RolledBack`).
-/
namespace TransactionalHeap

/-- Maps with the same keys have them in the same order. -/
theorem SortedMap.keys_eq_of_mem_iff {κ α β : Type} [Ranked κ] {m : SortedMap κ α} {n : SortedMap κ β}
    (h : ∀ key, key ∈ m.keys ↔ key ∈ n.keys) : m.keys = n.keys := by
  have hkeys : ∀ {γ : Type} (m : SortedMap κ γ), m.keys = (m.map fun _ _ => ()).keys := by
    intro γ m
    simp [keys, map, Function.comp_def]
  rw [hkeys m, hkeys n]
  congr 1
  apply ext_find?
  intro key
  have hkey := h key
  rw [mem_keys_iff, mem_keys_iff] at hkey
  rw [find?_map, find?_map]
  cases hm : m.find? key <;> cases hn : n.find? key <;> simp [hm, hn] at hkey ⊢

variable [Transactables]

namespace Transaction

/-- The handles that a commit would have to look at. -/
def writeSet (t : Transaction) : List Handle :=
  (t.entries.filter fun _ e => e.status.isWriteCandidate).keys

theorem mem_writeSet_iff {t : Transaction} {h : Handle} :
    h ∈ t.writeSet ↔ ∃ e, t.entries.find? h = some e ∧ e.status.isWriteCandidate = true := by
  simp only [writeSet, SortedMap.mem_keys_iff, SortedMap.find?_filter, Option.filter_eq_some_iff]

/-- What a rollback makes of a transaction that opened a branch as it was at `start` and left it as
`ended`. An entry that was there is as it was, but an object that was only read has to be rebuilt when it
is asked for again. Of the others what was read stays as a dependency. -/
structure RolledBack (start ended t : Transaction) : Prop where
  rest : t = { start with entries := t.entries }
  present : ∀ h e, start.entries.find? h = some e →
    t.entries.find? h = some { e with object := e.buffered }
  added : ∀ h, start.entries.find? h = none →
    t.entries.find? h = ((ended.entries.find? h).bind Entry.origin).map Entry.deferred

end Transaction

namespace Entry

theorem buffered_buffered (e : Entry) :
    ({ e with object := e.buffered } : Entry).buffered = e.buffered := by
  unfold buffered
  split <;> rfl

/-- Saving a sound entry and bringing it back gives the entry with what it has buffered. -/
theorem Sound.restore_save {good : Object → Prop} {s : Snapshot} {h : Handle} {e : Entry}
    {saved : SavedEntry} (stores : s.Stores good) (faithful : ∀ o, good o → o.Faithful)
    (sound : e.Sound good s h) (hsave : e.save = .ok saved) :
    saved.restore h = .ok { e with object := e.buffered } := by
  cases sound with
  | fresh o absent isGood =>
    cases hsave
    have hrun : (Entry.fresh h o).materializer.run o.dematerialize = .ok o := faithful o isGood
    simp only [SavedEntry.restore]
    rw [hrun]
    rfl
  | loaded r object stored yielded =>
    cases hsave
    rfl
  | changed r o stored sameType isGood =>
    cases hsave
    have hrun : r.materializer.run o.dematerialize = .ok o := by
      rw [stores.materializer_eq stored, ← sameType]
      exact faithful o isGood
    simp only [SavedEntry.restore]
    rw [hrun]
    rfl

end Entry

namespace Transaction

variable {good : Object → Prop} {start ended t : Transaction} {f : Frame} {h : Handle}

namespace RolledBack

/-- What was read before and in the branch is read, and nothing else. -/
theorem readSet_eq (rolledBack : RolledBack start ended t) (sound : start.Sound good)
    (soundly : ended.Sound good) (sound' : t.Sound good) (later : Later start ended) :
    t.readSet = ended.readSet := by
  apply SortedMap.keys_eq_of_mem_iff
  intro h
  change h ∈ t.readSet ↔ h ∈ ended.readSet
  cases hstart : start.entries.find? h with
  | none =>
    rw [mem_readSet_iff, mem_readSet_iff, rolledBack.added h hstart]
    constructor
    · rintro ⟨e, r, he, -⟩
      obtain ⟨r', hr', -⟩ := Option.map_eq_some_iff.mp he
      obtain ⟨old, hold, horigin⟩ := Option.bind_eq_some_iff.mp hr'
      exact ⟨old, r', hold, horigin⟩
    · rintro ⟨e, r, he, horigin⟩
      exact ⟨.deferred r, r, by rw [he, Option.bind_some, horigin, Option.map_some], rfl⟩
  | some e =>
    have hsnapshot : t.snapshot = start.snapshot := by rw [rolledBack.rest]
    constructor
    · intro hmem
      obtain ⟨-, hread⟩ := sound'.mem_readSet.mp hmem
      exact later.reads h (sound.mem_readSet.mpr ⟨⟨e, hstart⟩, hsnapshot ▸ hread⟩)
    · intro hmem
      obtain ⟨-, hread⟩ := soundly.mem_readSet.mp hmem
      rw [later.snapshot_eq, ← hsnapshot] at hread
      exact sound'.mem_readSet.mpr ⟨⟨_, rolledBack.present h e hstart⟩, hread⟩

/-- The same entries are to be written as when the branch was opened. -/
theorem writeSet_eq (rolledBack : RolledBack start ended t) : t.writeSet = start.writeSet := by
  apply SortedMap.keys_eq_of_mem_iff
  intro h
  change h ∈ t.writeSet ↔ h ∈ start.writeSet
  rw [mem_writeSet_iff, mem_writeSet_iff]
  cases hstart : start.entries.find? h with
  | none =>
    rw [rolledBack.added h hstart]
    constructor
    · rintro ⟨e, he, hcandidate⟩
      obtain ⟨r, -, rfl⟩ := Option.map_eq_some_iff.mp he
      cases hcandidate
    · rintro ⟨e, he, -⟩
      cases he
  | some e =>
    rw [rolledBack.present h e hstart]
    simp

/-- The same objects are buffered. -/
theorem overlay_eq (rolledBack : RolledBack start ended t) :
    Entries.overlay t.entries = Entries.overlay start.entries := by
  apply SortedMap.ext_find?
  intro h
  rw [Entries.find?_overlay, Entries.find?_overlay]
  cases hstart : start.entries.find? h with
  | none =>
    rw [rolledBack.added h hstart]
    cases (ended.entries.find? h).bind Entry.origin <;> rfl
  | some e =>
    rw [rolledBack.present h e hstart]
    exact e.buffered_buffered

/-- What was attached in the branch is gone, and its handle can be attached to again. -/
theorem attachable (rolledBack : RolledBack start ended t) (soundly : ended.Sound good)
    (active : start.status = .active) (later : Later start ended) {e : Entry}
    (absent : start.entries.find? h = none) (attached : ended.entries.find? h = some e)
    (fresh : e.origin = none) :
    t.entries.find? h = none ∧ ∀ o, attachTo h o t = .ok () (t.put h (.fresh h o)) := by
  have hgone : t.entries.find? h = none := by
    rw [rolledBack.added h absent, attached, Option.bind_some, fresh, Option.map_none]
  have hactive : t.status = .active := by rwa [rolledBack.rest]
  have hfree : t.snapshot.read h = none := by
    rw [rolledBack.rest]
    exact later.snapshot_eq ▸ (soundly.entries h e attached).origin_eq.symm.trans fresh
  exact ⟨hgone, fun o => attachTo_of_free hactive hgone hfree⟩

end RolledBack

/-- Rolling back a branch that was left with the open branches as they were. -/
theorem Sound.rolledBack (faithful : ∀ o, good o → o.Faithful) (sound : start.Sound good)
    (active : start.status = .active) (hcapture : Frame.capture start.entries = .ok f)
    (soundly : ended.Sound good) (later : Later start ended)
    (frames : ended.frames = f :: start.frames) :
    ∃ t, endOrElse ended = .ok () t ∧ RolledBack start ended t := by
  have hsaved := traverse_of_capture hcapture
  have hactive : ended.status = .active := later.status_eq.trans active
  have hrun := endOrElse_eq hactive frames
  rcases soundly.restore (soundly.frames f (frames ▸ List.mem_cons_self)) with
    ⟨entries, hrestore, -⟩ | ⟨fault, -, hunfaithful⟩
  · rw [hrestore] at hrun
    refine ⟨_, hrun, by rw [later.rest], fun h e he => ?_, fun h absent => ?_⟩
    · obtain ⟨saved, hsave, hkept⟩ := SortedMap.find?_traverse hsaved he
      obtain ⟨e', he', hfound⟩ := find?_restore_saved hrestore hkept
      rw [(sound.entries h e he).restore_save sound.stores faithful hsave] at he'
      cases he'
      exact hfound
    · refine find?_restore_unsaved hrestore ?_
      cases hkept : f.saved.find? h with
      | none => rfl
      | some saved =>
        obtain ⟨e, he, -⟩ := SortedMap.find?_of_traverse hsaved hkept
        rw [absent] at he
        cases he
  · exact absurd faithful hunfaithful

end Transaction

end TransactionalHeap
