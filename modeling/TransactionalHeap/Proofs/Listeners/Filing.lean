import TransactionalHeap.Listeners
import TransactionalHeap.Proofs.Latch.Group

/-!
# Which latches wait for which objects

Listeners are known by the active version of every object's group, by the latches filed with the
object under each trigger, and by the latches that are open. Every step of a registration and of an
announcement changes these in one place.
-/
namespace TransactionalHeap

namespace Listeners

variable {l : Listeners} {h : Handle} {g : LatchGroup}

/-- The active version of an object's group, if it has a group. -/
def activeOf (l : Listeners) (h : Handle) : Option Version := (l.groups.find? h).map LatchGroup.active

/-- A latch is filed with the object under a trigger version. -/
def Filed (l : Listeners) (h : Handle) (trigger : Version) (latch : LatchId) : Prop :=
  ∃ g, l.groups.find? h = some g ∧ g.Filed trigger latch

/-- Every group waits. -/
def Waiting (l : Listeners) : Prop := ∀ h g, l.groups.find? h = some g → g.Waiting

theorem Waiting.active_lt (waiting : l.Waiting) {trigger : Version} {latch : LatchId}
    (filed : l.Filed h trigger latch) : ∃ active, l.activeOf h = some active ∧ active < trigger := by
  obtain ⟨g, hfound, hfiled⟩ := filed
  exact ⟨g.active, by rw [activeOf, hfound]; rfl, (waiting h g hfound).active_lt hfiled⟩

theorem find?_of_activeOf {active : Version} (listened : l.activeOf h = some active) :
    ∃ g, l.groups.find? h = some g ∧ g.active = active :=
  Option.map_eq_some_iff.mp listened

theorem find?_of_not_listened (unlistened : l.activeOf h = none) : l.groups.find? h = none :=
  Option.map_eq_none_iff.mp unlistened

/-! ## One group in place of another -/

/-- The listeners with another group for one object. -/
def withGroup (l : Listeners) (h : Handle) (g : LatchGroup) (latches : Latches) : Listeners :=
  { groups := l.groups.insert h g, latches }

theorem onGroup_of_find? (found : l.groups.find? h = some g)
    (change : LatchGroup → Latches → LatchGroup × Latches) :
    l.onGroup h change = l.withGroup h (change g l.latches).1 (change g l.latches).2 := by
  simp only [onGroup, found]
  rfl

theorem onGroup_of_absent (absent : l.groups.find? h = none)
    (change : LatchGroup → Latches → LatchGroup × Latches) : l.onGroup h change = l := by
  simp only [onGroup, absent]

theorem activeOf_withGroup (l : Listeners) (h : Handle) (g : LatchGroup) (ls : Latches)
    (other : Handle) : (l.withGroup h g ls).activeOf other =
      if other = h then some g.active else l.activeOf other := by
  split
  · next hsame =>
    rw [hsame, activeOf, withGroup, SortedMap.find?_insert_self]
    rfl
  · next hne => rw [activeOf, withGroup, SortedMap.find?_insert_of_ne _ _ hne, activeOf]

theorem filed_withGroup (l : Listeners) (h : Handle) (g : LatchGroup) (ls : Latches)
    (other : Handle) (trigger : Version) (latch : LatchId) :
    (l.withGroup h g ls).Filed other trigger latch ↔
      if other = h then g.Filed trigger latch else l.Filed other trigger latch := by
  split
  · next hsame =>
    simp only [hsame, Filed, withGroup, SortedMap.find?_insert_self, Option.some.injEq,
      exists_eq_left']
  · next hne => simp only [Filed, withGroup, SortedMap.find?_insert_of_ne _ _ hne]

theorem Waiting.withGroup (waiting : l.Waiting) (gWaiting : g.Waiting) (ls : Latches) :
    (l.withGroup h g ls).Waiting := by
  intro other g' hfound
  rcases SortedMap.find?_of_insert hfound with ⟨rfl, rfl⟩ | ⟨-, hfound⟩
  · exact gWaiting
  · exact waiting other g' hfound

theorem filed_of_find? (found : l.groups.find? h = some g) {trigger : Version} {latch : LatchId} :
    l.Filed h trigger latch ↔ g.Filed trigger latch := by
  simp only [Filed, found, Option.some.injEq, exists_eq_left']

/-! ## Making sure of a group -/

theorem ensureGroup_of_listened {active : Version} (listened : l.activeOf h = some active) :
    l.ensureGroup h = l := by
  obtain ⟨g, hfound, -⟩ := find?_of_activeOf listened
  exact if_pos (SortedMap.contains_iff.mpr ⟨g, hfound⟩)

theorem ensureGroup_of_not_listened (unlistened : l.activeOf h = none) :
    l.ensureGroup h = l.withGroup h {} l.latches := by
  have hcontains := SortedMap.contains_eq_false_iff.mpr (find?_of_not_listened unlistened)
  rw [ensureGroup, hcontains]
  rfl

theorem latches_ensureGroup (l : Listeners) (h : Handle) : (l.ensureGroup h).latches = l.latches := by
  unfold ensureGroup
  split <;> rfl

theorem activeOf_ensureGroup (l : Listeners) (h other : Handle) : (l.ensureGroup h).activeOf other =
    if other = h then some ((l.activeOf h).getD 0) else l.activeOf other := by
  cases hlistened : l.activeOf h with
  | none =>
    rw [ensureGroup_of_not_listened hlistened, activeOf_withGroup]
    rfl
  | some active =>
    rw [ensureGroup_of_listened hlistened]
    split
    · next hsame =>
      rw [hsame, hlistened]
      rfl
    · rfl

theorem filed_ensureGroup (l : Listeners) (h other : Handle) (trigger : Version) (latch : LatchId) :
    (l.ensureGroup h).Filed other trigger latch ↔ l.Filed other trigger latch := by
  cases hlistened : l.activeOf h with
  | none =>
    rw [ensureGroup_of_not_listened hlistened, filed_withGroup]
    split
    · next hsame =>
      simp [hsame, Filed, find?_of_not_listened hlistened, LatchGroup.not_filed_empty]
    · rfl
  | some active => rw [ensureGroup_of_listened hlistened]

theorem Waiting.ensureGroup (waiting : l.Waiting) (h : Handle) : (l.ensureGroup h).Waiting := by
  cases hlistened : l.activeOf h with
  | none =>
    rw [ensureGroup_of_not_listened hlistened]
    exact waiting.withGroup LatchGroup.waiting_empty _
  | some active => rwa [ensureGroup_of_listened hlistened]

/-! ## Activating -/

theorem activate_of_not_listened (unlistened : l.activeOf h = none) (v : Version) :
    l.activate h v = l :=
  onGroup_of_absent (find?_of_not_listened unlistened) _

theorem activeOf_activate (l : Listeners) (h other : Handle) (v : Version) :
    (l.activate h v).activeOf other =
      if other = h then (l.activeOf h).map fun active => if v ≤ active then active else v
      else l.activeOf other := by
  cases hlistened : l.activeOf h with
  | none =>
    rw [activate_of_not_listened hlistened]
    split
    · next hsame =>
      rw [hsame, hlistened]
      rfl
    · rfl
  | some active =>
    obtain ⟨g, hfound, rfl⟩ := find?_of_activeOf hlistened
    rw [activate, onGroup_of_find? hfound, activeOf_withGroup, LatchGroup.active_activate]
    rfl

theorem Waiting.activate (waiting : l.Waiting) (h : Handle) (v : Version) :
    (l.activate h v).Waiting := by
  cases hlistened : l.activeOf h with
  | none => rwa [activate_of_not_listened hlistened]
  | some active =>
    obtain ⟨g, hfound, -⟩ := find?_of_activeOf hlistened
    rw [Listeners.activate, onGroup_of_find? hfound]
    exact waiting.withGroup ((waiting h g hfound).activate v _) _

theorem Waiting.filed_activate (waiting : l.Waiting) (h other : Handle) (v trigger : Version)
    (latch : LatchId) : (l.activate h v).Filed other trigger latch ↔
      l.Filed other trigger latch ∧ (other = h → v < trigger) := by
  cases hlistened : l.activeOf h with
  | none =>
    rw [activate_of_not_listened hlistened]
    refine ⟨fun filed => ⟨filed, ?_⟩, fun filed => filed.1⟩
    rintro rfl
    obtain ⟨g, hfound, -⟩ := filed
    rw [find?_of_not_listened hlistened] at hfound
    cases hfound
  | some active =>
    obtain ⟨g, hfound, -⟩ := find?_of_activeOf hlistened
    rw [Listeners.activate, onGroup_of_find? hfound, filed_withGroup]
    split
    · next hsame =>
      rw [(waiting h g hfound).filed_activate, hsame, filed_of_find? hfound]
      simp
    · next hne => simp [hne]

theorem Waiting.isOpen_activate (waiting : l.Waiting) (h : Handle) (v : Version) (latch : LatchId) :
    (l.activate h v).latches.isOpen latch ↔
      l.latches.isOpen latch ∨ ∃ trigger, trigger ≤ v ∧ l.Filed h trigger latch := by
  cases hlistened : l.activeOf h with
  | none =>
    rw [activate_of_not_listened hlistened]
    refine ⟨.inl, fun h => h.elim (fun h => h) ?_⟩
    rintro ⟨trigger, -, g, hfound, -⟩
    rw [find?_of_not_listened hlistened] at hfound
    cases hfound
  | some active =>
    obtain ⟨g, hfound, -⟩ := find?_of_activeOf hlistened
    rw [Listeners.activate, onGroup_of_find? hfound]
    simp only [filed_of_find? hfound]
    exact (waiting h g hfound).isOpen_activate v _ latch

/-! ## Filing -/

section File

variable {active : Version} (waiting : l.Waiting) (listened : l.activeOf h = some active)

include waiting listened

theorem Waiting.activeOf_file (trigger : Version) (latch : LatchId) (other : Handle) :
    (l.file h trigger latch).activeOf other = l.activeOf other := by
  obtain ⟨g, hfound, rfl⟩ := find?_of_activeOf listened
  rw [Listeners.file, onGroup_of_find? hfound, activeOf_withGroup,
    (waiting h g hfound).active_add]
  split
  · next hsame => rw [hsame, listened]
  · rfl

theorem Waiting.file (trigger : Version) (latch : LatchId) : (l.file h trigger latch).Waiting := by
  obtain ⟨g, hfound, -⟩ := find?_of_activeOf listened
  rw [Listeners.file, onGroup_of_find? hfound]
  exact waiting.withGroup ((waiting h g hfound).add trigger latch _) _

theorem Waiting.filed_file (trigger : Version) (latch : LatchId) (other : Handle)
    (trigger' : Version) (latch' : LatchId) :
    (l.file h trigger latch).Filed other trigger' latch' ↔ l.Filed other trigger' latch' ∨
      other = h ∧ trigger' = trigger ∧ latch' = latch ∧ l.latches.isOpen latch = false ∧
        active < trigger := by
  obtain ⟨g, hfound, rfl⟩ := find?_of_activeOf listened
  rw [Listeners.file, onGroup_of_find? hfound, filed_withGroup]
  split
  · next hsame =>
    rw [(waiting h g hfound).filed_add, hsame, filed_of_find? hfound]
    simp
  · next hne => simp [hne]

theorem Waiting.isOpen_file (trigger : Version) (latch latch' : LatchId) :
    (l.file h trigger latch).latches.isOpen latch' ↔
      l.latches.isOpen latch' ∨ latch' = latch ∧ trigger ≤ active := by
  obtain ⟨g, hfound, rfl⟩ := find?_of_activeOf listened
  rw [Listeners.file, onGroup_of_find? hfound]
  exact g.isOpen_add trigger latch _ (waiting h g hfound) latch'

end File

/-! ## Withdrawing -/

theorem withdraw_of_not_listened (unlistened : l.activeOf h = none) (trigger : Version)
    (latch : LatchId) : l.withdraw h trigger latch = l :=
  onGroup_of_absent (find?_of_not_listened unlistened) _

theorem latches_withdraw (l : Listeners) (h : Handle) (trigger : Version) (latch : LatchId) :
    (l.withdraw h trigger latch).latches = l.latches := by
  unfold withdraw onGroup
  split <;> rfl

theorem activeOf_withdraw (l : Listeners) (h : Handle) (trigger : Version) (latch : LatchId)
    (other : Handle) : (l.withdraw h trigger latch).activeOf other = l.activeOf other := by
  cases hlistened : l.activeOf h with
  | none => rw [withdraw_of_not_listened hlistened]
  | some active =>
    obtain ⟨g, hfound, rfl⟩ := find?_of_activeOf hlistened
    rw [withdraw, onGroup_of_find? hfound, activeOf_withGroup, LatchGroup.active_remove]
    split
    · next hsame => rw [hsame, hlistened]
    · rfl

theorem Waiting.withdraw (waiting : l.Waiting) (h : Handle) (trigger : Version) (latch : LatchId) :
    (l.withdraw h trigger latch).Waiting := by
  cases hlistened : l.activeOf h with
  | none => rwa [withdraw_of_not_listened hlistened]
  | some active =>
    obtain ⟨g, hfound, -⟩ := find?_of_activeOf hlistened
    rw [Listeners.withdraw, onGroup_of_find? hfound]
    exact waiting.withGroup ((waiting h g hfound).remove trigger latch) _

theorem filed_withdraw (l : Listeners) (h : Handle) (trigger : Version) (latch : LatchId)
    (other : Handle) (trigger' : Version) (latch' : LatchId) :
    (l.withdraw h trigger latch).Filed other trigger' latch' ↔ l.Filed other trigger' latch' ∧
      ¬ (other = h ∧ trigger' = trigger ∧ latch' = latch) := by
  cases hlistened : l.activeOf h with
  | none =>
    rw [withdraw_of_not_listened hlistened]
    refine ⟨fun filed => ⟨filed, ?_⟩, fun filed => filed.1⟩
    rintro ⟨rfl, -⟩
    obtain ⟨g, hfound, -⟩ := filed
    rw [find?_of_not_listened hlistened] at hfound
    cases hfound
  | some active =>
    obtain ⟨g, hfound, -⟩ := find?_of_activeOf hlistened
    rw [withdraw, onGroup_of_find? hfound, filed_withGroup]
    split
    · next hsame =>
      rw [LatchGroup.filed_remove, hsame, filed_of_find? hfound]
      simp
    · next hne => simp [hne]

/-! ## Buckets in use -/

/-- No group has an empty bucket. -/
def Occupied (l : Listeners) : Prop := ∀ h g, l.groups.find? h = some g → g.Occupied

theorem Occupied.withGroup (occupied : l.Occupied) (gOccupied : g.Occupied) (ls : Latches) :
    (l.withGroup h g ls).Occupied := by
  intro other g' hfound
  rcases SortedMap.find?_of_insert hfound with ⟨rfl, rfl⟩ | ⟨-, hfound⟩
  · exact gOccupied
  · exact occupied other g' hfound

/-- Whatever a change of one group keeps occupied, it keeps so among the others. -/
theorem Occupied.onGroup (occupied : l.Occupied)
    {change : LatchGroup → Latches → LatchGroup × Latches}
    (kept : ∀ g, l.groups.find? h = some g → (change g l.latches).1.Occupied) :
    (l.onGroup h change).Occupied := by
  cases hfound : l.groups.find? h with
  | none => rwa [onGroup_of_absent hfound]
  | some g =>
    rw [onGroup_of_find? hfound]
    exact occupied.withGroup (kept g hfound) _

theorem Occupied.ensureGroup (occupied : l.Occupied) (h : Handle) : (l.ensureGroup h).Occupied := by
  cases hlistened : l.activeOf h with
  | none =>
    rw [ensureGroup_of_not_listened hlistened]
    exact occupied.withGroup LatchGroup.occupied_empty _
  | some active => rwa [ensureGroup_of_listened hlistened]

theorem Occupied.activate (occupied : l.Occupied) (h : Handle) (v : Version) :
    (l.activate h v).Occupied :=
  occupied.onGroup fun g hfound => (occupied h g hfound).activate v _

theorem Occupied.file (occupied : l.Occupied) (waiting : l.Waiting) (h : Handle) (trigger : Version)
    (latch : LatchId) : (l.file h trigger latch).Occupied :=
  occupied.onGroup fun g hfound => (occupied h g hfound).add (waiting h g hfound) trigger latch _

theorem Occupied.withdraw (occupied : l.Occupied) (h : Handle) (trigger : Version) (latch : LatchId) :
    (l.withdraw h trigger latch).Occupied :=
  occupied.onGroup fun g hfound => (occupied h g hfound).remove trigger latch

/-- With nothing filed there is no bucket. -/
theorem Occupied.bucketCount_eq_zero (occupied : l.Occupied)
    (unfiled : ∀ h trigger latch, ¬ l.Filed h trigger latch) : l.bucketCount = 0 := by
  refine List.sum_eq_zero_iff_forall_eq_nat.mpr fun n hn => ?_
  obtain ⟨g, hg, rfl⟩ := List.mem_map.mp hn
  obtain ⟨h, hfound⟩ := SortedMap.mem_values_iff.mp hg
  have hempty : g.buckets = ∅ := by
    refine SortedMap.ext_find? fun trigger => Option.eq_none_iff_forall_ne_some.mpr ?_
    intro bucket hbucket
    obtain ⟨latch, hmem⟩ := List.exists_mem_of_ne_nil _ (occupied h g hfound trigger bucket hbucket)
    exact unfiled h trigger latch ⟨g, hfound, bucket, hbucket, hmem⟩
  rw [LatchGroup.bucketCount, hempty]
  rfl

end Listeners

end TransactionalHeap
