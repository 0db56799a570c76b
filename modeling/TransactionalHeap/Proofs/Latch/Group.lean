import TransactionalHeap.Latch.Group
import TransactionalHeap.Proofs.SortedMap.Lookup

/-!
# Which latches a group holds

In a group that waits, every bucket is closed and its trigger is still to come. Such a group is known
by its active version and by the latches that are filed with it under each trigger, and this is what
activating, adding and removing do to both and to the latches themselves. No bucket is left empty, so
the buckets are those of the triggers under which something is filed.
-/
namespace TransactionalHeap

namespace LatchGroup

/-- A latch is filed with the group under a trigger version. -/
def Filed (g : LatchGroup) (trigger : Version) (latch : LatchId) : Prop :=
  ∃ bucket, g.buckets.find? trigger = some bucket ∧ latch ∈ bucket.latches

/-- Every bucket is closed and waits for a version still to come. -/
def Waiting (g : LatchGroup) : Prop :=
  ∀ trigger bucket, g.buckets.find? trigger = some bucket →
    g.active < trigger ∧ bucket.isOpen = false

variable {g : LatchGroup}

theorem Waiting.active_lt (waiting : g.Waiting) {trigger : Version} {latch : LatchId}
    (filed : g.Filed trigger latch) : g.active < trigger := by
  obtain ⟨bucket, hfound, -⟩ := filed
  exact (waiting trigger bucket hfound).1

/-- A new group waits, and nothing is filed with it. -/
theorem waiting_empty : Waiting {} := fun trigger bucket hfound => by cases hfound

theorem not_filed_empty (trigger : Version) (latch : LatchId) : ¬ Filed {} trigger latch := by
  rintro ⟨bucket, hfound, -⟩
  cases hfound

/-! ## Activating -/

/-- Buckets are released one after the other: the latches of the closed ones are open then. -/
theorem isOpen_release (buckets : List LatchBucket) (ls : Latches) (latch : LatchId) :
    (buckets.foldl (fun ls bucket => (bucket.release ls).2) ls).isOpen latch ↔
      ls.isOpen latch ∨ ∃ b ∈ buckets, b.isOpen = false ∧ latch ∈ b.latches := by
  induction buckets generalizing ls with
  | nil => simp
  | cons b later ih =>
    have hrelease : (b.release ls).2.isOpen latch ↔
        ls.isOpen latch ∨ b.isOpen = false ∧ latch ∈ b.latches := by
      cases hb : b.isOpen <;> simp [LatchBucket.release, hb, Latches.isOpen_openAll, or_comm]
    rw [List.foldl_cons, ih, hrelease, or_assoc]
    simp only [List.mem_cons, exists_eq_or_imp]

/-- The latch is among those that the version opens. -/
def Opens (g : LatchGroup) (v : Version) (latch : LatchId) : Prop :=
  g.active < v ∧ ∃ b ∈ g.due v, b.isOpen = false ∧ latch ∈ b.latches

theorem isOpen_activate (g : LatchGroup) (v : Version) (ls : Latches) (latch : LatchId) :
    (g.activate v ls).2.isOpen latch ↔ ls.isOpen latch ∨ g.Opens v latch := by
  unfold activate
  split
  · next hle => exact (or_iff_left fun opens => UInt64.not_le.mpr opens.1 hle).symm
  · next hgt => rw [isOpen_release, Opens, and_iff_right (UInt64.not_le.mp hgt)]

theorem active_activate (g : LatchGroup) (v : Version) (ls : Latches) :
    (g.activate v ls).1.active = if v ≤ g.active then g.active else v := by
  unfold activate
  split <;> rfl

theorem Waiting.activate (waiting : g.Waiting) (v : Version) (ls : Latches) :
    (g.activate v ls).1.Waiting := by
  unfold LatchGroup.activate
  split
  · exact waiting
  · intro trigger bucket hfound
    rw [SortedMap.find?_filter, Option.filter_eq_some_iff] at hfound
    exact ⟨by simpa using hfound.2, (waiting trigger bucket hfound.1).2⟩

/-- What the version reaches is taken out. -/
theorem Waiting.filed_activate (waiting : g.Waiting) (v : Version) (ls : Latches)
    (trigger : Version) (latch : LatchId) :
    (g.activate v ls).1.Filed trigger latch ↔ g.Filed trigger latch ∧ v < trigger := by
  unfold LatchGroup.activate
  split
  · next hle =>
    refine ⟨fun filed => ⟨filed, ?_⟩, fun h => h.1⟩
    exact UInt64.lt_of_le_of_lt hle (waiting.active_lt filed)
  · simp only [Filed, SortedMap.find?_filter, Option.filter_eq_some_iff, decide_eq_true_eq]
    constructor
    · rintro ⟨bucket, ⟨hfound, hlt⟩, hmem⟩
      exact ⟨⟨bucket, hfound, hmem⟩, hlt⟩
    · rintro ⟨⟨bucket, hfound, hmem⟩, hlt⟩
      exact ⟨bucket, ⟨hfound, hlt⟩, hmem⟩

theorem mem_due_iff {v : Version} {b : LatchBucket} :
    b ∈ g.due v ↔ ∃ trigger, g.buckets.find? trigger = some b ∧ trigger ≤ v := by
  simp only [due, SortedMap.mem_values_iff, SortedMap.find?_filter, Option.filter_eq_some_iff,
    decide_eq_true_eq]

theorem Waiting.opens_iff (waiting : g.Waiting) {v : Version} {latch : LatchId} :
    g.Opens v latch ↔ ∃ trigger, trigger ≤ v ∧ g.Filed trigger latch := by
  constructor
  · rintro ⟨-, b, hb, -, hmem⟩
    obtain ⟨trigger, hfound, hle⟩ := mem_due_iff.mp hb
    exact ⟨trigger, hle, b, hfound, hmem⟩
  · rintro ⟨trigger, hle, b, hfound, hmem⟩
    obtain ⟨hlt, hclosed⟩ := waiting trigger b hfound
    exact ⟨UInt64.lt_of_lt_of_le hlt hle, b, mem_due_iff.mpr ⟨trigger, hfound, hle⟩, hclosed, hmem⟩

/-- What the version reaches is opened. -/
theorem Waiting.isOpen_activate (waiting : g.Waiting) (v : Version) (ls : Latches)
    (latch : LatchId) :
    (g.activate v ls).2.isOpen latch ↔
      ls.isOpen latch ∨ ∃ trigger, trigger ≤ v ∧ g.Filed trigger latch := by
  rw [LatchGroup.isOpen_activate, waiting.opens_iff]

/-! ## Adding -/

/-- In a group that waits, a latch is filed, or it is open already, or its trigger is reached and it
is opened. -/
theorem Waiting.add_eq (waiting : g.Waiting) (trigger : Version) (latch : LatchId) (ls : Latches) :
    g.add trigger latch ls =
      if ls.isOpen latch then (g, ls)
      else if trigger ≤ g.active then (g, ls.openOne latch)
      else ({ g with
        buckets := g.buckets.insert trigger
          ⟨false, ((g.buckets.find? trigger).getD {}).latches ++ [latch]⟩ }, ls) := by
  have hclosed : ((g.buckets.find? trigger).getD {}).isOpen = false := by
    cases hfound : g.buckets.find? trigger with
    | none => rfl
    | some bucket => exact (waiting trigger bucket hfound).2
  unfold add LatchBucket.add
  rw [hclosed]
  simp only [Bool.false_eq_true, if_false]

theorem Waiting.active_add (waiting : g.Waiting) (trigger : Version) (latch : LatchId)
    (ls : Latches) : (g.add trigger latch ls).1.active = g.active := by
  rw [waiting.add_eq]
  split
  · rfl
  · split <;> rfl

theorem Waiting.add (waiting : g.Waiting) (trigger : Version) (latch : LatchId) (ls : Latches) :
    (g.add trigger latch ls).1.Waiting := by
  rw [waiting.add_eq]
  split
  · exact waiting
  · split
    · exact waiting
    · next habove =>
      intro other bucket hfound
      rcases SortedMap.find?_of_insert hfound with ⟨rfl, rfl⟩ | ⟨-, hfound⟩
      · exact ⟨UInt64.not_le.mp habove, rfl⟩
      · exact waiting other bucket hfound

theorem Waiting.filed_add (waiting : g.Waiting) (trigger : Version) (latch : LatchId) (ls : Latches)
    (trigger' : Version) (latch' : LatchId) :
    (g.add trigger latch ls).1.Filed trigger' latch' ↔ g.Filed trigger' latch' ∨
      trigger' = trigger ∧ latch' = latch ∧ ls.isOpen latch = false ∧ g.active < trigger := by
  rw [waiting.add_eq]
  split
  · next hopen => simp [hopen]
  · next hclosed =>
    have hclosed' : ls.isOpen latch = false := by simpa using hclosed
    split
    · next hreached => simp [UInt64.not_lt.mpr hreached]
    · next habove =>
      have habove' := UInt64.not_le.mp habove
      by_cases hsame : trigger' = trigger
      · subst hsame
        simp only [Filed, SortedMap.find?_insert_self, Option.some.injEq, exists_eq_left',
          List.mem_append, List.mem_singleton, hclosed', habove', and_true, true_and]
        refine or_congr_left ?_
        cases hfound : g.buckets.find? trigger' <;> simp
      · simp only [Filed, SortedMap.find?_insert_of_ne _ _ hsame, hsame, false_and, or_false]

theorem isOpen_add (g : LatchGroup) (trigger : Version) (latch : LatchId) (ls : Latches)
    (waiting : g.Waiting) (latch' : LatchId) :
    (g.add trigger latch ls).2.isOpen latch' ↔
      ls.isOpen latch' ∨ latch' = latch ∧ trigger ≤ g.active := by
  rw [waiting.add_eq]
  split
  · next hopen =>
    refine ⟨.inl, fun h => h.elim (fun h => h) ?_⟩
    rintro ⟨rfl, -⟩
    exact hopen
  · split
    · next hreached =>
      rw [Latches.isOpen_openOne]
      simp [hreached, or_comm]
    · next habove => simp [habove]

/-! ## Removing -/

theorem active_remove (g : LatchGroup) (trigger : Version) (latch : LatchId) :
    (g.remove trigger latch).active = g.active := by
  unfold remove
  split
  · rfl
  · dsimp only
    split <;> rfl

theorem Waiting.remove (waiting : g.Waiting) (trigger : Version) (latch : LatchId) :
    (g.remove trigger latch).Waiting := by
  unfold LatchGroup.remove
  split
  · exact waiting
  · next bucket hbucket =>
    dsimp only
    split
    · intro other bucket' hfound
      exact waiting other bucket' (SortedMap.find?_of_erase hfound).2
    · intro other bucket' hfound
      rcases SortedMap.find?_of_insert hfound with ⟨rfl, rfl⟩ | ⟨-, hfound⟩
      · exact waiting other bucket hbucket
      · exact waiting other bucket' hfound

theorem filed_remove (g : LatchGroup) (trigger : Version) (latch : LatchId) (trigger' : Version)
    (latch' : LatchId) : (g.remove trigger latch).Filed trigger' latch' ↔
      g.Filed trigger' latch' ∧ ¬ (trigger' = trigger ∧ latch' = latch) := by
  unfold remove
  split
  · next hnone =>
    refine ⟨fun filed => ⟨filed, ?_⟩, fun h => h.1⟩
    rintro ⟨rfl, -⟩
    obtain ⟨bucket, hfound, -⟩ := filed
    rw [hnone] at hfound
    cases hfound
  · next bucket hbucket =>
    dsimp only
    by_cases hsame : trigger' = trigger
    · subst hsame
      have hbefore : g.Filed trigger' latch' ↔ latch' ∈ bucket.latches := by
        simp only [Filed, hbucket, Option.some.injEq, exists_eq_left']
      have hafter : latch' ∈ (bucket.remove latch).latches ↔
          latch' ∈ bucket.latches ∧ latch' ≠ latch := by
        simp [LatchBucket.remove]
      rw [hbefore]
      simp only [true_and]
      split
      · next hempty =>
        rw [← hafter, List.isEmpty_iff.mp hempty]
        simp [Filed, SortedMap.find?_erase_self]
      · simp only [Filed, SortedMap.find?_insert_self, Option.some.injEq, exists_eq_left', hafter,
          ne_eq]
    · simp only [hsame, false_and, not_false_eq_true, and_true]
      split
      · simp only [Filed, SortedMap.find?_erase_of_ne _ hsame]
      · simp only [Filed, SortedMap.find?_insert_of_ne _ _ hsame]

/-! ## Buckets in use -/

/-- No bucket is empty. -/
def Occupied (g : LatchGroup) : Prop :=
  ∀ trigger bucket, g.buckets.find? trigger = some bucket → bucket.latches ≠ []

theorem occupied_empty : Occupied {} := fun trigger bucket hfound => by cases hfound

theorem Occupied.activate (occupied : g.Occupied) (v : Version) (ls : Latches) :
    (g.activate v ls).1.Occupied := by
  unfold LatchGroup.activate
  split
  · exact occupied
  · intro trigger bucket hfound
    rw [SortedMap.find?_filter, Option.filter_eq_some_iff] at hfound
    exact occupied trigger bucket hfound.1

theorem Occupied.add (occupied : g.Occupied) (waiting : g.Waiting) (trigger : Version)
    (latch : LatchId) (ls : Latches) : (g.add trigger latch ls).1.Occupied := by
  rw [waiting.add_eq]
  split
  · exact occupied
  · split
    · exact occupied
    · intro other bucket hfound
      rcases SortedMap.find?_of_insert hfound with ⟨-, rfl⟩ | ⟨-, hfound⟩
      · exact List.append_ne_nil_of_right_ne_nil _ (List.cons_ne_nil latch [])
      · exact occupied other bucket hfound

theorem Occupied.remove (occupied : g.Occupied) (trigger : Version) (latch : LatchId) :
    (g.remove trigger latch).Occupied := by
  unfold LatchGroup.remove
  split
  · exact occupied
  · dsimp only
    split
    · intro other bucket hfound
      exact occupied other bucket (SortedMap.find?_of_erase hfound).2
    · next hleft =>
      intro other bucket hfound
      rcases SortedMap.find?_of_insert hfound with ⟨-, rfl⟩ | ⟨-, hfound⟩
      · exact fun hempty => hleft (List.isEmpty_iff.mpr hempty)
      · exact occupied other bucket hfound

/-- There is a bucket for a trigger if and only if something is filed under it. -/
theorem Occupied.mem_keys_iff (occupied : g.Occupied) (trigger : Version) :
    trigger ∈ g.buckets.keys ↔ ∃ latch, g.Filed trigger latch := by
  rw [SortedMap.mem_keys_iff]
  constructor
  · rintro ⟨bucket, hfound⟩
    obtain ⟨latch, hmem⟩ := List.exists_mem_of_ne_nil _ (occupied trigger bucket hfound)
    exact ⟨latch, bucket, hfound, hmem⟩
  · rintro ⟨latch, bucket, hfound, -⟩
    exact ⟨bucket, hfound⟩

end LatchGroup

end TransactionalHeap
