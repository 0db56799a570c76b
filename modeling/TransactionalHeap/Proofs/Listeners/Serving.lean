import TransactionalHeap.Proofs.Listeners.Filing
import TransactionalHeap.Proofs.Snapshot.History

/-!
# Listeners that serve their registrations

A registration wants its latch opened by any write of its objects after its start. Listeners serve
the registrations over a heap and the announcements still to be made (`Listeners.Serves`) if they
open no latch without such a write, and if every write they do not know of is still to be announced.

Each step of a registration, of a commit and of an announcement keeps this. It is stated once for
each step here, and the systems that take the steps in this order or that have it from here.
-/
namespace TransactionalHeap

/-- What a latch is registered for. -/
@[ext]
structure Registration where
  /-- The objects that the latch was filed with. -/
  handles : List Handle
  start : Version
  /-- Those where it may be filed still. -/
  filed : List Handle
  /-- The latch is not being withdrawn. -/
  kept : Bool
  room : start.toNat + 1 < 2 ^ 64
  listed : ∀ h ∈ filed, h ∈ handles
  whole : kept = true → filed = handles

namespace Registration

/-- A registration that has not come to filing its latch yet. -/
def fresh (start : Version) (room : start.toNat + 1 < 2 ^ 64) : Registration :=
  ⟨[], start, [], true, room, fun _ h => h, fun _ => rfl⟩

/-- The registration with the latch filed with one more object. -/
def fileWith (r : Registration) (h : Handle) : Registration where
  handles := r.handles ++ [h]
  start := r.start
  filed := r.filed ++ [h]
  kept := r.kept
  room := r.room
  listed other hother := by
    rcases List.mem_append.mp hother with hother | hother
    · exact List.mem_append_left _ (r.listed other hother)
    · exact List.mem_append_right _ hother
  whole hkept := by rw [r.whole hkept]

/-- The registration while its latch is withdrawn, with the objects where it may be filed still. -/
def withdrawing (r : Registration) (left : List Handle) (sub : ∀ h ∈ left, h ∈ r.filed) :
    Registration :=
  ⟨r.handles, r.start, left, false, r.room, fun h hleft => r.listed h (sub h hleft), nofun⟩

/-- The latch was filed with just these objects, and is there still. -/
structure Stands (r : Registration) (filed : List Handle) (start : Version) : Prop where
  handles : r.handles = filed
  filed : r.filed = filed
  start : r.start = start
  kept : r.kept = true

theorem Stands.unique {r r' : Registration} {filed : List Handle} {start : Version}
    (stands : r.Stands filed start) (stands' : r'.Stands filed start) : r = r' :=
  Registration.ext (stands.handles.trans stands'.handles.symm) (stands.start.trans stands'.start.symm)
    (stands.filed.trans stands'.filed.symm) (stands.kept.trans stands'.kept.symm)

end Registration

/-- One latch is registered otherwise, or anew. -/
def reassign (regs : LatchId → Registration → Prop) (latch : LatchId) (r : Registration) :
    LatchId → Registration → Prop :=
  fun other r' => other = latch ∧ r' = r ∨ other ≠ latch ∧ regs other r'

/-- The last registration of a latch counts. -/
theorem reassign_reassign (regs : LatchId → Registration → Prop) (latch : LatchId)
    (r r' : Registration) (other : LatchId) (r'' : Registration) :
    reassign (reassign regs latch r) latch r' other r'' ↔ reassign regs latch r' other r'' := by
  refine or_congr_right (and_congr_right fun hne => ?_)
  simp [reassign, hne]

namespace Listeners

variable {l l' : Listeners} {h : Handle} {v : Version}

/-- No object has lost its listeners, these have forgotten nothing, and no latch has been closed. -/
structure Leads (l l' : Listeners) : Prop where
  active : ∀ h active, l.activeOf h = some active →
    ∃ active', l'.activeOf h = some active' ∧ active ≤ active'
  opened : ∀ latch, l.latches.isOpen latch → l'.latches.isOpen latch

theorem Leads.refl (l : Listeners) : l.Leads l :=
  ⟨fun _ active hactive => ⟨active, hactive, UInt64.le_refl _⟩, fun _ hopen => hopen⟩

theorem Leads.trans {l'' : Listeners} (first : l.Leads l') (second : l'.Leads l'') : l.Leads l'' where
  active h active hactive := by
    obtain ⟨active', hactive', hle⟩ := first.active h active hactive
    obtain ⟨active'', hactive'', hle'⟩ := second.active h active' hactive'
    exact ⟨active'', hactive'', UInt64.le_trans hle hle'⟩
  opened latch hopen := second.opened latch (first.opened latch hopen)

theorem leads_ensureGroup (l : Listeners) (h : Handle) : l.Leads (l.ensureGroup h) where
  active other active hactive := by
    refine ⟨active, ?_, UInt64.le_refl _⟩
    rw [activeOf_ensureGroup]
    split
    · next hsame =>
      rw [← hsame, hactive]
      rfl
    · exact hactive
  opened latch hopen := by rwa [latches_ensureGroup]

theorem Waiting.leads_activate (waiting : l.Waiting) (h : Handle) (v : Version) :
    l.Leads (l.activate h v) where
  active other active hactive := by
    rw [activeOf_activate]
    split
    · next hsame =>
      rw [← hsame, hactive, Option.map_some]
      refine ⟨_, rfl, ?_⟩
      split
      · exact UInt64.le_refl _
      · next habove => exact UInt64.le_of_lt (UInt64.not_le.mp habove)
    · exact ⟨active, hactive, UInt64.le_refl _⟩
  opened latch hopen := (waiting.isOpen_activate h v latch).mpr (.inl hopen)

theorem Waiting.leads_notify (waiting : l.Waiting) (handles : List Handle) (v : Version) :
    l.Leads (l.notify handles v) := by
  induction handles generalizing l with
  | nil => exact .refl l
  | cons h later ih => exact (waiting.leads_activate h v).trans (ih (waiting.activate h v))

theorem Waiting.leads_file (waiting : l.Waiting) {active : Version}
    (listened : l.activeOf h = some active) (trigger : Version) (latch : LatchId) :
    l.Leads (l.file h trigger latch) where
  active other known hknown :=
    ⟨known, (waiting.activeOf_file listened trigger latch other).trans hknown, UInt64.le_refl _⟩
  opened other hopen := (waiting.isOpen_file listened trigger latch other).mpr (.inl hopen)

theorem leads_withdraw (l : Listeners) (h : Handle) (trigger : Version) (latch : LatchId) :
    l.Leads (l.withdraw h trigger latch) where
  active other active hactive :=
    ⟨active, (activeOf_withdraw l h trigger latch other).trans hactive, UInt64.le_refl _⟩
  opened other hopen := by rwa [latches_withdraw]

theorem leads_deregister (l : Listeners) (handles : List Handle) (start : Version) (latch : LatchId) :
    l.Leads (l.deregister handles start latch) := by
  induction handles generalizing l with
  | nil => exact .refl l
  | cons h later ih => exact (l.leads_withdraw h start.next latch).trans (ih _)

/-- What is activated is known then. -/
theorem le_of_activate {active : Version} (listened : (l.activate h v).activeOf h = some active) :
    v ≤ active := by
  rw [activeOf_activate, if_pos rfl, Option.map_eq_some_iff] at listened
  obtain ⟨before, -, rfl⟩ := listened
  split
  · assumption
  · exact UInt64.le_refl v

end Listeners

variable [Transactables]

/-- One of the objects has been written after the given version. -/
def Snapshot.Overtakes (head : Snapshot) (handles : List Handle) (start : Version) : Prop :=
  ∃ h ∈ handles, start < head.written h

namespace Listeners

variable {l l' : Listeners} {head : Snapshot} {used : LatchId → Prop}
  {regs : LatchId → Registration → Prop} {pending pending' : Handle → Version → Prop}
  {h : Handle} {v : Version} {latch : LatchId} {r : Registration}

/-! ## What the listeners of an object know -/

/-- The object has listeners, and every version of it in the history is one of `seen`, or it is known
to them, or it is still to be announced. -/
def Informed (l : Listeners) (head : Snapshot) (pending : Handle → Version → Prop) (h : Handle)
    (seen : Version) : Prop :=
  ∃ active, l.activeOf h = some active ∧
    ∀ past ∈ head.chain, past.written h ≤ seen ∨ past.written h ≤ active ∨ pending h (past.written h)

/-- Knowledge only grows with the listeners. -/
theorem Informed.lead {seen : Version} (informed : l.Informed head pending h seen)
    (leads : l.Leads l') : l'.Informed head pending h seen := by
  obtain ⟨active, hactive, hknown⟩ := informed
  obtain ⟨active', hactive', hle⟩ := leads.active h active hactive
  refine ⟨active', hactive', fun past hpast => (hknown past hpast).imp_right ?_⟩
  exact Or.imp_left fun hle' => UInt64.le_trans hle' hle

/-- What was announced is known. -/
theorem Informed.announce {seen : Version} {other : Handle}
    (informed : l.Informed head pending other seen) (waiting : l.Waiting)
    (rest : ∀ v', pending other v' → pending' other v' ∨ other = h ∧ v' ≤ v) :
    (l.activate h v).Informed head pending' other seen := by
  obtain ⟨active, hactive, hknown⟩ := informed.lead (waiting.leads_activate h v)
  refine ⟨active, hactive, fun past hpast => (hknown past hpast).imp_right ?_⟩
  rintro (hle | hpending)
  · exact .inl hle
  · rcases rest _ hpending with hpending | ⟨rfl, hle⟩
    · exact .inr hpending
    · exact .inl (UInt64.le_trans hle (le_of_activate hactive))

/-- A commit adds a version of what it writes, which is to be announced. -/
theorem Informed.extend {seen : Version} (informed : l.Informed head pending h seen)
    (ordered : head.tree.root.Ordered) (writes : List PendingRecord)
    (more : ∀ v, pending h v → pending' h v)
    (new : (∃ w ∈ writes, w.handle = h) → pending' h head.version.next) :
    l.Informed (head.extend writes) pending' h seen := by
  obtain ⟨active, hactive, hknown⟩ := informed
  have hknown' : ∀ past ∈ head.chain, past.written h ≤ seen ∨ past.written h ≤ active ∨
      pending' h (past.written h) := fun past hpast =>
    (hknown past hpast).imp_right fun h => h.imp_right (more _)
  refine ⟨active, hactive, fun past hpast => ?_⟩
  rw [Snapshot.chain_extend] at hpast
  rcases List.mem_cons.mp hpast with rfl | hpast
  · rw [Snapshot.written_extend ordered]
    split
    · next hwritten => exact .inr (.inr (new hwritten))
    · exact hknown' head (Snapshot.mem_chain_self head)
  · exact hknown' past hpast

/-- Who knows what was seen knows everything. -/
theorem Informed.activate {seen : Version} (informed : l.Informed head pending h seen)
    (waiting : l.Waiting) : (l.activate h seen).Informed head pending h 0 := by
  obtain ⟨active, hactive, hknown⟩ := informed.lead (waiting.leads_activate h seen)
  refine ⟨active, hactive, fun past hpast => .inr ?_⟩
  rcases hknown past hpast with hold | hknown
  · exact .inl (UInt64.le_trans hold (le_of_activate hactive))
  · exact hknown

/-- Who looks an object up that has listeners sees all of its past. -/
theorem informed_of_lookup {ok : PendingRecord → Prop} (built : head.Built ok)
    (room : head.base.toNat + head.depth < 2 ^ 64) {active : Version}
    (listened : l.activeOf h = some active) : l.Informed head pending h (head.written h) :=
  ⟨active, listened, fun _ hpast => .inl (built.written_mono room hpast h)⟩

/-! ## Serving -/

/-- The listeners serve the registrations, with `pending` still to be announced. -/
structure Serves (l : Listeners) (head : Snapshot) (used : LatchId → Prop)
    (regs : LatchId → Registration → Prop) (pending : Handle → Version → Prop) : Prop where
  waiting : l.Waiting
  active_le : ∀ h active, l.activeOf h = some active → active ≤ head.written h
  pending_le : ∀ h v, pending h v → v ≤ head.written h
  opened_used : ∀ latch, l.latches.isOpen latch → used latch
  regs_used : ∀ latch r, regs latch r → used latch
  unique : ∀ latch r r', regs latch r → regs latch r' → r = r'
  /-- Latches are filed for registrations only, each under the version after its start. -/
  owned : ∀ h trigger latch, l.Filed h trigger latch →
    ∃ r, regs latch r ∧ trigger = r.start.next ∧ h ∈ r.filed
  /-- No latch is opened for nothing. -/
  overtaken : ∀ latch r, regs latch r → l.latches.isOpen latch → head.Overtakes r.handles r.start
  /-- A latch that is closed waits for objects whose listeners are informed. -/
  informed : ∀ latch r, regs latch r → r.kept = true → l.latches.isOpen latch = false →
    ∀ h ∈ r.filed, l.Filed h r.start.next latch ∧ l.Informed head pending h 0

namespace Serves

/-- The registrations may be described otherwise. -/
theorem congr (serves : l.Serves head used regs pending) {used' : LatchId → Prop}
    {regs' : LatchId → Registration → Prop} (hused : ∀ latch, used latch → used' latch)
    (hregs : ∀ latch r, regs' latch r ↔ regs latch r) : l.Serves head used' regs' pending where
  waiting := serves.waiting
  active_le := serves.active_le
  pending_le := serves.pending_le
  opened_used latch hopen := hused latch (serves.opened_used latch hopen)
  regs_used latch r hr := hused latch (serves.regs_used latch r ((hregs latch r).mp hr))
  unique latch r r' hr hr' := serves.unique latch r r' ((hregs _ _).mp hr) ((hregs _ _).mp hr')
  owned h trigger latch filed := by
    obtain ⟨r, hr, hrest⟩ := serves.owned h trigger latch filed
    exact ⟨r, (hregs latch r).mpr hr, hrest⟩
  overtaken latch r hr := serves.overtaken latch r ((hregs latch r).mp hr)
  informed latch r hr := serves.informed latch r ((hregs latch r).mp hr)

/-- With no listeners at all, nothing is served and nothing is owed. -/
theorem empty (head : Snapshot) (used : LatchId → Prop) (unregistered : ∀ latch r, ¬ regs latch r)
    (announced : ∀ h v, ¬ pending h v) : Serves {} head used regs pending where
  waiting h g hfound := by cases hfound
  active_le h active hactive := by cases hactive
  pending_le h v hpending := (announced h v hpending).elim
  opened_used latch hopen := by cases hopen
  regs_used latch r hr := (unregistered latch r hr).elim
  unique latch r r' hr := (unregistered latch r hr).elim
  owned h trigger latch filed := by
    obtain ⟨g, hfound, -⟩ := filed
    cases hfound
  overtaken latch r hr := (unregistered latch r hr).elim
  informed latch r hr := (unregistered latch r hr).elim

/-- A commit that publishes owes the announcement of what it wrote. -/
theorem commit {ok : PendingRecord → Prop} (serves : l.Serves head used regs pending)
    (built : head.Built ok) (room : head.base.toNat + head.depth + 1 < 2 ^ 64)
    (writes : List PendingRecord)
    (hpending : ∀ h v, pending' h v ↔
      pending h v ∨ v = head.version.next ∧ ∃ w ∈ writes, w.handle = h) :
    l.Serves (head.extend writes) used regs pending' where
  waiting := serves.waiting
  active_le h active hactive :=
    UInt64.le_trans (serves.active_le h active hactive) (built.written_extend_le room writes h)
  pending_le h v hv := by
    rcases (hpending h v).mp hv with hv | ⟨rfl, hwritten⟩
    · exact UInt64.le_trans (serves.pending_le h v hv) (built.written_extend_le room writes h)
    · rw [Snapshot.written_extend built.ordered, if_pos hwritten]
      exact UInt64.le_refl _
  opened_used := serves.opened_used
  regs_used := serves.regs_used
  unique := serves.unique
  owned := serves.owned
  overtaken latch r hr hopen := by
    obtain ⟨h, hmem, hlt⟩ := serves.overtaken latch r hr hopen
    exact ⟨h, hmem, UInt64.lt_of_lt_of_le hlt (built.written_extend_le room writes h)⟩
  informed latch r hr hkept hclosed h hmem := by
    obtain ⟨hfiled, hinformed⟩ := serves.informed latch r hr hkept hclosed h hmem
    exact ⟨hfiled, hinformed.extend built.ordered writes
      (fun v hv => (hpending h v).mpr (.inl hv))
      (fun hwritten => (hpending h _).mpr (.inr ⟨rfl, hwritten⟩))⟩

theorem ensureGroup (serves : l.Serves head used regs pending) (h : Handle) :
    (l.ensureGroup h).Serves head used regs pending where
  waiting := serves.waiting.ensureGroup h
  active_le other active hactive := by
    rw [activeOf_ensureGroup] at hactive
    split at hactive
    · next hsame =>
      cases hlistened : l.activeOf h with
      | none =>
        rw [hlistened] at hactive
        cases hactive
        exact UInt64.zero_le
      | some known =>
        rw [hlistened] at hactive
        cases hactive
        rw [hsame]
        exact serves.active_le h known hlistened
    · exact serves.active_le other active hactive
  pending_le := serves.pending_le
  opened_used latch hopen := by
    rw [latches_ensureGroup] at hopen
    exact serves.opened_used latch hopen
  regs_used := serves.regs_used
  unique := serves.unique
  owned other trigger latch filed :=
    serves.owned other trigger latch ((filed_ensureGroup l h other trigger latch).mp filed)
  overtaken latch r hr hopen := by
    rw [latches_ensureGroup] at hopen
    exact serves.overtaken latch r hr hopen
  informed latch r hr hkept hclosed other hmem := by
    rw [latches_ensureGroup] at hclosed
    obtain ⟨hfiled, hinformed⟩ := serves.informed latch r hr hkept hclosed other hmem
    exact ⟨(filed_ensureGroup _ _ _ _ _).mpr hfiled, hinformed.lead (l.leads_ensureGroup h)⟩

/-- Activating a version that the object has reached, which may be the announcement of it. -/
theorem activate (serves : l.Serves head used regs pending) (le : v ≤ head.written h)
    (fewer : ∀ h' v', pending' h' v' → pending h' v')
    (rest : ∀ h' v', pending h' v' → pending' h' v' ∨ h' = h ∧ v' ≤ v) :
    (l.activate h v).Serves head used regs pending' where
  waiting := serves.waiting.activate h v
  active_le other active hactive := by
    rw [activeOf_activate] at hactive
    split at hactive
    · next hsame =>
      obtain ⟨known, hknown, rfl⟩ := Option.map_eq_some_iff.mp hactive
      rw [hsame]
      split
      · exact serves.active_le h known hknown
      · exact le
    · exact serves.active_le other active hactive
  pending_le h' v' hpending := serves.pending_le h' v' (fewer h' v' hpending)
  opened_used latch hopen := by
    rcases (serves.waiting.isOpen_activate h v latch).mp hopen with hopen | ⟨trigger, -, hfiled⟩
    · exact serves.opened_used latch hopen
    · obtain ⟨r, hr, -⟩ := serves.owned h trigger latch hfiled
      exact serves.regs_used latch r hr
  regs_used := serves.regs_used
  unique := serves.unique
  owned other trigger latch filed :=
    serves.owned other trigger latch ((serves.waiting.filed_activate _ _ _ _ _).mp filed).1
  overtaken latch r hr hopen := by
    rcases (serves.waiting.isOpen_activate h v latch).mp hopen with hopen | ⟨trigger, hle, hfiled⟩
    · exact serves.overtaken latch r hr hopen
    · obtain ⟨r', hr', rfl, hmem⟩ := serves.owned h trigger latch hfiled
      obtain rfl := serves.unique latch r r' hr hr'
      exact ⟨h, r.listed h hmem, (Version.next_le_iff r.room).mp (UInt64.le_trans hle le)⟩
  informed latch r hr hkept hclosed other hmem := by
    have hstill : ¬ (l.latches.isOpen latch = true ∨
        ∃ trigger, trigger ≤ v ∧ l.Filed h trigger latch) := by
      rw [← serves.waiting.isOpen_activate, hclosed]
      simp
    obtain ⟨hbefore, hunreached⟩ := not_or.mp hstill
    obtain ⟨hfiled, hinformed⟩ := serves.informed latch r hr hkept (by simpa using hbefore) other hmem
    refine ⟨(serves.waiting.filed_activate _ _ _ _ _).mpr ⟨hfiled, fun hsame => ?_⟩, ?_⟩
    · -- what the version reaches would be open
      refine UInt64.not_le.mp fun hle => hunreached ⟨_, hle, ?_⟩
      rwa [← hsame]
    · exact hinformed.announce serves.waiting (rest other)

/-- Announcing a commit, object by object. -/
theorem notify (serves : l.Serves head used regs pending) {handles : List Handle}
    (reached : ∀ h ∈ handles, v ≤ head.written h)
    (fewer : ∀ h' v', pending' h' v' → pending h' v')
    (rest : ∀ h' v', pending h' v' → pending' h' v' ∨ h' ∈ handles ∧ v' ≤ v) :
    (l.notify handles v).Serves head used regs pending' := by
  induction handles generalizing l pending with
  | nil =>
    have hsame : pending' = pending := by
      funext h' v'
      refine propext ⟨fewer h' v', fun hpending => ?_⟩
      exact (rest h' v' hpending).resolve_right fun hnone => List.not_mem_nil hnone.1
    rwa [hsame]
  | cons h later ih =>
    -- what is left to announce after the first object
    have hfirst : (l.activate h v).Serves head used regs fun h' v' =>
        pending' h' v' ∨ pending h' v' ∧ h' ∈ later ∧ v' ≤ v := by
      refine serves.activate (reached h List.mem_cons_self) (fun h' v' hleft => ?_)
        fun h' v' hpending => ?_
      · exact hleft.elim (fewer h' v') fun hleft => hleft.1
      · rcases rest h' v' hpending with hpending' | ⟨hmem, hle⟩
        · exact .inl (.inl hpending')
        · rcases List.mem_cons.mp hmem with rfl | hmem
          · exact .inr ⟨rfl, hle⟩
          · exact .inl (.inr ⟨hpending, hmem, hle⟩)
    exact ih hfirst (fun other hother => reached other (List.mem_cons_of_mem _ hother))
      (fun _ _ => .inl) fun h' v' hleft => hleft.imp_right fun hleft => hleft.2

/-- A latch has one registration also after it was registered otherwise. -/
theorem unique_reassign (serves : l.Serves head used regs pending) (latch : LatchId)
    (r : Registration) (other : LatchId) (r' r'' : Registration)
    (hr' : reassign regs latch r other r') (hr'' : reassign regs latch r other r'') : r' = r'' := by
  rcases hr' with ⟨hsame, rfl⟩ | ⟨hne, hr'⟩
  · rcases hr'' with ⟨-, rfl⟩ | ⟨hne, -⟩
    · rfl
    · exact absurd hsame hne
  · rcases hr'' with ⟨hsame, -⟩ | ⟨-, hr''⟩
    · exact absurd hsame hne
    · exact serves.unique other r' r'' hr' hr''

/-- A latch that was registered before is no new one. -/
theorem used_reassign (serves : l.Serves head used regs pending) (reg : regs latch r)
    {after : Registration} (other : LatchId) (r' : Registration)
    (hr' : reassign regs latch after other r') : used other := by
  rcases hr' with ⟨rfl, -⟩ | ⟨-, hr'⟩
  · exact serves.regs_used other r reg
  · exact serves.regs_used other r' hr'

/-- A latch was opened for something also when it is registered for more than it was. -/
theorem overtaken_reassign (serves : l.Serves head used regs pending) (reg : regs latch r)
    {after : Registration} {other : LatchId} {r' : Registration}
    (hr' : reassign regs latch after other r') (opened : l.latches.isOpen other)
    (more : ∀ h ∈ r.handles, h ∈ after.handles) (start : after.start = r.start) :
    head.Overtakes r'.handles r'.start := by
  rcases hr' with ⟨rfl, rfl⟩ | ⟨-, hr'⟩
  · obtain ⟨h, hmem, hlt⟩ := serves.overtaken other r reg opened
    exact ⟨h, more h hmem, start ▸ hlt⟩
  · exact serves.overtaken other r' hr' opened

/-- Where a latch is filed after it was registered otherwise: the given one as it was registered
before, and the others as they are. -/
theorem owner_cases (serves : l.Serves head used regs pending) (reg : regs latch r)
    {trigger : Version} {other : LatchId} (filed : l.Filed h trigger other) :
    other = latch ∧ trigger = r.start.next ∧ h ∈ r.filed ∨
      ∀ after, ∃ r', reassign regs latch after other r' ∧ trigger = r'.start.next ∧ h ∈ r'.filed := by
  obtain ⟨r', hr', htrigger, hmem⟩ := serves.owned h trigger other filed
  by_cases hsame : other = latch
  · subst hsame
    obtain rfl := serves.unique other r r' reg hr'
    exact .inl ⟨rfl, htrigger, hmem⟩
  · exact .inr fun _ => ⟨r', .inr ⟨hsame, hr'⟩, htrigger, hmem⟩

/-- Registering a latch as it is registered already changes nothing. -/
theorem reassign_self (serves : l.Serves head used regs pending) (reg : regs latch r)
    (other : LatchId) (r' : Registration) : reassign regs latch r other r' ↔ regs other r' := by
  constructor
  · rintro (⟨rfl, rfl⟩ | ⟨-, hr'⟩)
    · exact reg
    · exact hr'
  · intro hr'
    by_cases hsame : other = latch
    · subst hsame
      exact .inl ⟨rfl, serves.unique other r' r hr' reg⟩
    · exact .inr ⟨hsame, hr'⟩

/-- A latch nobody has used before is registered. -/
theorem register (serves : l.Serves head used regs pending) (unused : ¬ used latch)
    (unfiled : r.filed = []) :
    l.Serves head (fun other => other = latch ∨ used other) (reassign regs latch r) pending where
  waiting := serves.waiting
  active_le := serves.active_le
  pending_le := serves.pending_le
  opened_used other hopen := .inr (serves.opened_used other hopen)
  regs_used other r' hr' := by
    rcases hr' with ⟨rfl, -⟩ | ⟨-, hr'⟩
    · exact .inl rfl
    · exact .inr (serves.regs_used other r' hr')
  unique := serves.unique_reassign latch r
  owned h trigger other hfiled := by
    obtain ⟨r', hr', hrest⟩ := serves.owned h trigger other hfiled
    refine ⟨r', .inr ⟨?_, hr'⟩, hrest⟩
    rintro rfl
    exact unused (serves.regs_used other r' hr')
  overtaken other r' hr' hopen := by
    rcases hr' with ⟨rfl, -⟩ | ⟨-, hr'⟩
    · exact absurd (serves.opened_used other hopen) unused
    · exact serves.overtaken other r' hr' hopen
  informed other r' hr' hkept hclosed h hmem := by
    rcases hr' with ⟨-, rfl⟩ | ⟨-, hr'⟩
    · rw [unfiled] at hmem
      cases hmem
    · exact serves.informed other r' hr' hkept hclosed h hmem

/-- A latch is filed with an object whose listeners know its past. -/
theorem file (serves : l.Serves head used regs pending) (reg : regs latch r)
    (informed : l.Informed head pending h 0) :
    (l.file h r.start.next latch).Serves head used (reassign regs latch (r.fileWith h)) pending := by
  have ⟨active, listened, _⟩ := informed
  have hfile := serves.waiting.filed_file listened r.start.next latch
  have hopen := serves.waiting.isOpen_file listened r.start.next latch
  have hleads := serves.waiting.leads_file listened r.start.next latch
  exact {
    waiting := serves.waiting.file listened _ _
    active_le := fun other known hknown => by
      rw [serves.waiting.activeOf_file listened] at hknown
      exact serves.active_le other known hknown
    pending_le := serves.pending_le
    opened_used := fun other hother => by
      rcases (hopen other).mp hother with hother | ⟨rfl, -⟩
      · exact serves.opened_used other hother
      · exact serves.regs_used other r reg
    regs_used := serves.used_reassign reg
    unique := serves.unique_reassign latch _
    owned := fun other trigger latch' hfiled => by
      rcases (hfile other trigger latch').mp hfiled with hfiled | ⟨rfl, rfl, rfl, -, -⟩
      · rcases serves.owner_cases reg hfiled with ⟨rfl, htrigger, hmem⟩ | howned
        · exact ⟨_, .inl ⟨rfl, rfl⟩, htrigger, List.mem_append_left _ hmem⟩
        · exact howned _
      · exact ⟨_, .inl ⟨rfl, rfl⟩, rfl, List.mem_append_right _ (List.mem_singleton_self _)⟩
    overtaken := fun latch' r' hr' hopened => by
      rcases (hopen latch').mp hopened with hbefore | ⟨rfl, hreached⟩
      · exact serves.overtaken_reassign reg hr' hbefore (fun _ => List.mem_append_left _) rfl
      · rcases hr' with ⟨-, rfl⟩ | ⟨hne, -⟩
        · have hlt : r.start < head.written h := UInt64.lt_of_lt_of_le
            ((Version.next_le_iff r.room).mp hreached) (serves.active_le h active listened)
          exact ⟨h, List.mem_append_right _ (List.mem_singleton_self h), hlt⟩
        · exact absurd rfl hne
    informed := fun latch' r' hr' hkept hclosed other hmem => by
      have hstill : ¬ (l.latches.isOpen latch' = true ∨ latch' = latch ∧ r.start.next ≤ active) := by
        rw [← hopen, hclosed]
        simp
      obtain ⟨hbefore, hunreached⟩ := not_or.mp hstill
      have hbefore' : l.latches.isOpen latch' = false := by simpa using hbefore
      rcases hr' with ⟨rfl, rfl⟩ | ⟨-, hr'⟩
      · rcases List.mem_append.mp hmem with hmem | hmem
        · obtain ⟨hfiled, hinformed⟩ := serves.informed latch' r reg hkept hbefore' other hmem
          exact ⟨(hfile _ _ _).mpr (.inl hfiled), hinformed.lead hleads⟩
        · obtain rfl := List.mem_singleton.mp hmem
          refine ⟨(hfile _ _ _).mpr (.inr ⟨rfl, rfl, rfl, hbefore', ?_⟩), informed.lead hleads⟩
          exact UInt64.not_le.mp fun hle => hunreached ⟨rfl, hle⟩
      · obtain ⟨hfiled, hinformed⟩ := serves.informed latch' r' hr' hkept hbefore' other hmem
        exact ⟨(hfile _ _ _).mpr (.inl hfiled), hinformed.lead hleads⟩ }

/-- A latch is no longer kept, and stays where it is filed for now. -/
theorem letGo (serves : l.Serves head used regs pending) (reg : regs latch r) :
    l.Serves head used (reassign regs latch (r.withdrawing r.filed fun _ h => h)) pending where
  waiting := serves.waiting
  active_le := serves.active_le
  pending_le := serves.pending_le
  opened_used := serves.opened_used
  regs_used := serves.used_reassign reg
  unique := serves.unique_reassign latch _
  owned h trigger other hfiled := by
    rcases serves.owner_cases reg hfiled with ⟨rfl, hrest⟩ | howned
    · exact ⟨_, .inl ⟨rfl, rfl⟩, hrest⟩
    · exact howned _
  overtaken other r' hr' hopen := serves.overtaken_reassign reg hr' hopen (fun _ hmem => hmem) rfl
  informed other r' hr' hkept := by
    rcases hr' with ⟨-, rfl⟩ | ⟨-, hr'⟩
    · cases hkept
    · exact serves.informed other r' hr' hkept

/-- A latch is withdrawn from an object and no longer kept. -/
theorem withdraw (serves : l.Serves head used regs pending) (reg : regs latch r)
    {left : List Handle} (sub : ∀ h ∈ left, h ∈ r.filed) (h : Handle)
    (rest : ∀ other ∈ r.filed, other = h ∨ other ∈ left) :
    (l.withdraw h r.start.next latch).Serves head used
      (reassign regs latch (r.withdrawing left sub)) pending where
  waiting := serves.waiting.withdraw _ _ _
  active_le other active hactive := by
    rw [activeOf_withdraw] at hactive
    exact serves.active_le other active hactive
  pending_le := serves.pending_le
  opened_used other hopen := by
    rw [latches_withdraw] at hopen
    exact serves.opened_used other hopen
  regs_used := serves.used_reassign reg
  unique := serves.unique_reassign latch _
  owned other trigger latch' hfiled := by
    obtain ⟨hfiled, hstill⟩ := (filed_withdraw _ _ _ _ _ _ _).mp hfiled
    rcases serves.owner_cases reg hfiled with ⟨rfl, htrigger, hmem⟩ | howned
    · refine ⟨_, .inl ⟨rfl, rfl⟩, htrigger, (rest other hmem).resolve_left fun hother => ?_⟩
      exact hstill ⟨hother, htrigger, rfl⟩
    · exact howned _
  overtaken other r' hr' hopen := by
    rw [latches_withdraw] at hopen
    exact serves.overtaken_reassign reg hr' hopen (fun _ hmem => hmem) rfl
  informed latch' r' hr' hkept hclosed other hmem := by
    rw [latches_withdraw] at hclosed
    rcases hr' with ⟨-, rfl⟩ | ⟨hne, hr'⟩
    · cases hkept
    · obtain ⟨hfiled, hinformed⟩ := serves.informed latch' r' hr' hkept hclosed other hmem
      refine ⟨(filed_withdraw _ _ _ _ _ _ _).mpr ⟨hfiled, fun hsame => hne hsame.2.2⟩, ?_⟩
      exact hinformed.lead (l.leads_withdraw h _ _)

/-- A registration whose latch is filed nowhere may be forgotten. -/
theorem forget (serves : l.Serves head used regs pending) (reg : regs latch r)
    (unfiled : r.filed = []) :
    l.Serves head used (fun other r' => other ≠ latch ∧ regs other r') pending where
  waiting := serves.waiting
  active_le := serves.active_le
  pending_le := serves.pending_le
  opened_used := serves.opened_used
  regs_used other r' hr' := serves.regs_used other r' hr'.2
  unique other r' r'' hr' hr'' := serves.unique other r' r'' hr'.2 hr''.2
  owned h trigger other hfiled := by
    obtain ⟨r', hr', htrigger, hmem⟩ := serves.owned h trigger other hfiled
    refine ⟨r', ⟨?_, hr'⟩, htrigger, hmem⟩
    rintro rfl
    obtain rfl := serves.unique other r r' reg hr'
    rw [unfiled] at hmem
    cases hmem
  overtaken other r' hr' := serves.overtaken other r' hr'.2
  informed other r' hr' := serves.informed other r' hr'.2

end Serves

/-! ## A closed latch -/

/-- A closed latch misses nothing while it is kept: each version of one of its objects after the start
is still to be announced. -/
theorem Serves.pending_of_closed (serves : l.Serves head used regs pending) (reg : regs latch r)
    (kept : r.kept = true) (closed : l.latches.isOpen latch = false) {past : Snapshot}
    (hpast : past ∈ head.chain) (listed : h ∈ r.handles) (newer : r.start < past.written h) :
    pending h (past.written h) := by
  obtain ⟨hfiled, active, hactive, hknown⟩ :=
    serves.informed latch r reg kept closed h ((r.whole kept).symm ▸ listed)
  obtain ⟨active', hactive', hlt⟩ := serves.waiting.active_lt hfiled
  rw [hactive] at hactive'
  cases hactive'
  have hnext : r.start.next ≤ past.written h := (Version.next_le_iff r.room).mpr newer
  rcases hknown past hpast with hzero | hactive | hpending
  · exact absurd (UInt64.lt_of_lt_of_le newer hzero) (UInt64.not_lt.mpr UInt64.zero_le)
  · exact absurd (UInt64.lt_of_lt_of_le hlt (UInt64.le_trans hnext hactive)) (UInt64.lt_irrefl _)
  · exact hpending

end Listeners

end TransactionalHeap
