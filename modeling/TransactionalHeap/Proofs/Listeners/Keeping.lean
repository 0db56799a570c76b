import TransactionalHeap.Engine
import TransactionalHeap.Proofs.Listeners.Registering

/-!
# Listeners that keep nothing else

The listeners keep the latches of those who wait (`Listeners.Keeps`) if nothing is filed with them but
a latch that somebody waits with, with an object that it was to be filed with and under the version
after its start, and if it is filed there until the object's listeners have learned of such a version.
No bucket is empty then, so there is none where nobody waits.

Nothing here is about the order of versions in a heap, so it holds as well when they wrap.
-/
namespace TransactionalHeap

namespace Listeners

variable {l l' : Listeners} {used : LatchId → Prop} {waits waits' : Parked → Prop} {h : Handle}
  {v : Version} {p : Parked}

/-! ## Withdrawing from many objects -/

theorem latches_deregister (l : Listeners) (handles : List Handle) (start : Version)
    (latch : LatchId) : (l.deregister handles start latch).latches = l.latches := by
  induction handles generalizing l with
  | nil => rfl
  | cons h later ih => exact (ih _).trans (l.latches_withdraw h start.next latch)

theorem activeOf_deregister (l : Listeners) (handles : List Handle) (start : Version)
    (latch : LatchId) (other : Handle) :
    (l.deregister handles start latch).activeOf other = l.activeOf other := by
  induction handles generalizing l with
  | nil => rfl
  | cons h later ih => exact (ih _).trans (l.activeOf_withdraw h start.next latch other)

theorem filed_deregister (l : Listeners) (handles : List Handle) (start : Version) (latch : LatchId)
    (other : Handle) (trigger : Version) (latch' : LatchId) :
    (l.deregister handles start latch).Filed other trigger latch' ↔ l.Filed other trigger latch' ∧
      ¬ (other ∈ handles ∧ trigger = start.next ∧ latch' = latch) := by
  induction handles generalizing l with
  | nil => simp [deregister]
  | cons h later ih =>
    refine (ih (l.withdraw h start.next latch)).trans ?_
    rw [filed_withdraw, List.mem_cons, and_assoc, ← not_or, or_and_right]

theorem Waiting.deregister (waiting : l.Waiting) (handles : List Handle) (start : Version)
    (latch : LatchId) : (l.deregister handles start latch).Waiting := by
  induction handles generalizing l with
  | nil => exact waiting
  | cons h later ih => exact ih (waiting.withdraw h start.next latch)

theorem Occupied.deregister (occupied : l.Occupied) (handles : List Handle) (start : Version)
    (latch : LatchId) : (l.deregister handles start latch).Occupied := by
  induction handles generalizing l with
  | nil => exact occupied
  | cons h later ih => exact ih (occupied.withdraw h start.next latch)

/-- Just the latches of those who wait are filed, each of them with the objects it was filed with that
have no version after its start that the listeners know of. -/
structure Keeps (l : Listeners) (used : LatchId → Prop) (waits : Parked → Prop) : Prop where
  waiting : l.Waiting
  occupied : l.Occupied
  opened_used : ∀ latch, l.latches.isOpen latch = true → used latch
  waits_used : ∀ p, waits p → used p.latch
  owned : ∀ h trigger latch, l.Filed h trigger latch →
    ∃ p, waits p ∧ p.latch = latch ∧ trigger = p.start.next ∧ h ∈ p.filed
  placed : ∀ p, waits p → ∀ h ∈ p.filed, ∃ active, l.activeOf h = some active ∧
    (active < p.start.next → l.Filed h p.start.next p.latch)
  closed : ∀ p, waits p → l.latches.isOpen p.latch = false →
    ∀ h ∈ p.filed, l.Filed h p.start.next p.latch

/-! ## One step -/

namespace Keeps

theorem congr (keeps : l.Keeps used waits) {used' : LatchId → Prop}
    (more : ∀ latch, used latch → used' latch) (same : ∀ p, waits' p ↔ waits p) :
    l.Keeps used' waits' := by
  obtain rfl : waits' = waits := funext fun p => propext (same p)
  exact { keeps with
    opened_used := fun latch hopen => more latch (keeps.opened_used latch hopen)
    waits_used := fun p hp => more p.latch (keeps.waits_used p hp) }

theorem empty (nobody : ∀ p, ¬ waits p) : Keeps {} used waits where
  waiting h g hfound := by cases hfound
  occupied h g hfound := by cases hfound
  opened_used latch hopen := by cases hopen
  waits_used p hp := (nobody p hp).elim
  owned h trigger latch hfiled := by
    obtain ⟨g, hfound, -⟩ := hfiled
    cases hfound
  placed p hp := (nobody p hp).elim
  closed p hp := (nobody p hp).elim

/-- A latch is filed exactly where it was filed and no version after its start is known. -/
theorem filed_iff (keeps : l.Keeps used waits) (hp : waits p)
    (alone : ∀ q, waits q → q.latch = p.latch → q = p) (h : Handle) (trigger : Version) :
    l.Filed h trigger p.latch ↔ trigger = p.start.next ∧ h ∈ p.filed ∧
      ∃ active, l.activeOf h = some active ∧ active < p.start.next := by
  constructor
  · intro hfiled
    obtain ⟨q, hq, hlatch, rfl, hmem⟩ := keeps.owned h trigger p.latch hfiled
    obtain rfl := alone q hq hlatch
    exact ⟨rfl, hmem, keeps.waiting.active_lt hfiled⟩
  · rintro ⟨rfl, hmem, active, hactive, hlt⟩
    obtain ⟨active', hactive', hfiled⟩ := keeps.placed p hp h hmem
    obtain rfl : active' = active := Option.some.inj (hactive'.symm.trans hactive)
    exact hfiled hlt

theorem ensureGroup (keeps : l.Keeps used waits) (h : Handle) : (l.ensureGroup h).Keeps used waits where
  waiting := keeps.waiting.ensureGroup h
  occupied := keeps.occupied.ensureGroup h
  opened_used latch hopen := by
    rw [latches_ensureGroup] at hopen
    exact keeps.opened_used latch hopen
  waits_used := keeps.waits_used
  owned other trigger latch hfiled :=
    keeps.owned other trigger latch ((filed_ensureGroup l h other trigger latch).mp hfiled)
  placed p hp other hmem := by
    obtain ⟨active, hactive, hfiled⟩ := keeps.placed p hp other hmem
    refine ⟨active, ?_, fun hlt => (filed_ensureGroup _ _ _ _ _).mpr (hfiled hlt)⟩
    rw [activeOf_ensureGroup]
    split
    · next hsame =>
      rw [← hsame, hactive]
      rfl
    · exact hactive
  closed p hp hclosed other hmem := by
    rw [latches_ensureGroup] at hclosed
    exact (filed_ensureGroup _ _ _ _ _).mpr (keeps.closed p hp hclosed other hmem)

theorem activate (keeps : l.Keeps used waits) (h : Handle) (v : Version) :
    (l.activate h v).Keeps used waits where
  waiting := keeps.waiting.activate h v
  occupied := keeps.occupied.activate h v
  opened_used latch hopen := by
    rcases (keeps.waiting.isOpen_activate h v latch).mp hopen with hopen | ⟨trigger, -, hfiled⟩
    · exact keeps.opened_used latch hopen
    · obtain ⟨p, hp, rfl, -⟩ := keeps.owned h trigger latch hfiled
      exact keeps.waits_used p hp
  waits_used := keeps.waits_used
  owned other trigger latch hfiled :=
    keeps.owned other trigger latch ((keeps.waiting.filed_activate _ _ _ _ _).mp hfiled).1
  placed p hp other hmem := by
    obtain ⟨active, hactive, hfiled⟩ := keeps.placed p hp other hmem
    rw [activeOf_activate]
    split
    · next hsame =>
      rw [← hsame, hactive, Option.map_some]
      refine ⟨_, rfl, fun hlt => (keeps.waiting.filed_activate _ _ _ _ _).mpr ?_⟩
      split at hlt
      · next hle => exact ⟨hfiled hlt, fun _ => UInt64.lt_of_le_of_lt hle hlt⟩
      · next hgt =>
        exact ⟨hfiled (UInt64.lt_trans (UInt64.not_le.mp hgt) hlt), fun _ => hlt⟩
    · next hne =>
      exact ⟨active, hactive, fun hlt => (keeps.waiting.filed_activate _ _ _ _ _).mpr
        ⟨hfiled hlt, fun hsame => absurd hsame hne⟩⟩
  closed p hp hclosed other hmem := by
    have hstill : ¬ (l.latches.isOpen p.latch = true ∨
        ∃ trigger, trigger ≤ v ∧ l.Filed h trigger p.latch) := by
      rw [← keeps.waiting.isOpen_activate, hclosed]
      simp
    obtain ⟨hbefore, hunreached⟩ := not_or.mp hstill
    have hfiled := keeps.closed p hp (by simpa using hbefore) other hmem
    refine (keeps.waiting.filed_activate _ _ _ _ _).mpr ⟨hfiled, fun hsame => ?_⟩
    -- what the version reaches would be open
    exact UInt64.not_le.mp fun hle => hunreached ⟨_, hle, hsame ▸ hfiled⟩

theorem notify (keeps : l.Keeps used waits) (handles : List Handle) (v : Version) :
    (l.notify handles v).Keeps used waits := by
  induction handles generalizing l with
  | nil => exact keeps
  | cons h later ih => exact ih (keeps.activate h v)

/-- Somebody is going to wait with a latch that nobody has used before. -/
theorem begin {latch : LatchId} (keeps : l.Keeps used waits) (start : Version) :
    l.Keeps (fun other => other = latch ∨ used other) fun q => q = ⟨latch, [], start⟩ ∨ waits q where
  waiting := keeps.waiting
  occupied := keeps.occupied
  opened_used other hopen := .inr (keeps.opened_used other hopen)
  waits_used q hq := by
    rcases hq with rfl | hq
    · exact .inl rfl
    · exact .inr (keeps.waits_used q hq)
  owned h trigger other hfiled := by
    obtain ⟨q, hq, hrest⟩ := keeps.owned h trigger other hfiled
    exact ⟨q, .inr hq, hrest⟩
  placed q hq h hmem := by
    rcases hq with rfl | hq
    · cases hmem
    · exact keeps.placed q hq h hmem
  closed q hq hclosed h hmem := by
    rcases hq with rfl | hq
    · cases hmem
    · exact keeps.closed q hq hclosed h hmem

/-- A latch is filed with one more object, closed or for a version that has been reached already. -/
theorem file {latch : LatchId} {filed : List Handle} {start active : Version}
    (keeps : l.Keeps used fun q => q = ⟨latch, filed, start⟩ ∨ waits q)
    (listened : l.activeOf h = some active)
    (due : l.latches.isOpen latch = false ∨ start.next ≤ active) :
    (l.file h start.next latch).Keeps used fun q => q = ⟨latch, filed ++ [h], start⟩ ∨ waits q := by
  have hwaiting := keeps.waiting
  have hfile := hwaiting.filed_file listened start.next latch
  have hactiveOf := hwaiting.activeOf_file listened start.next latch
  have hopen := hwaiting.isOpen_file listened start.next latch
  exact {
    waiting := hwaiting.file listened _ _
    occupied := keeps.occupied.file hwaiting _ _ _
    opened_used := fun other hother => by
      rcases (hopen other).mp hother with hother | ⟨rfl, -⟩
      · exact keeps.opened_used other hother
      · exact keeps.waits_used _ (.inl rfl)
    waits_used := fun q hq => by
      rcases hq with rfl | hq
      · exact keeps.waits_used ⟨latch, filed, start⟩ (.inl rfl)
      · exact keeps.waits_used q (.inr hq)
    owned := fun other trigger latch' hfiled => by
      rcases (hfile other trigger latch').mp hfiled with hfiled | ⟨rfl, rfl, rfl, -, -⟩
      · obtain ⟨q, rfl | hq, hrest⟩ := keeps.owned other trigger latch' hfiled
        · exact ⟨_, .inl rfl, hrest.1, hrest.2.1, List.mem_append_left _ hrest.2.2⟩
        · exact ⟨q, .inr hq, hrest⟩
      · exact ⟨_, .inl rfl, rfl, rfl, List.mem_append_right _ (List.mem_singleton_self _)⟩
    placed := fun q hq other hmem => by
      rw [hactiveOf]
      rcases hq with rfl | hq
      · rcases List.mem_append.mp hmem with hmem | hmem
        · obtain ⟨known, hknown, hfiled⟩ := keeps.placed _ (.inl rfl) other hmem
          exact ⟨known, hknown, fun hlt => (hfile _ _ _).mpr (.inl (hfiled hlt))⟩
        · obtain rfl := List.mem_singleton.mp hmem
          refine ⟨active, listened, fun hlt => (hfile _ _ _).mpr (.inr ⟨rfl, rfl, rfl, ?_, hlt⟩)⟩
          exact due.resolve_right (UInt64.not_le.mpr hlt)
      · obtain ⟨known, hknown, hfiled⟩ := keeps.placed q (.inr hq) other hmem
        exact ⟨known, hknown, fun hlt => (hfile _ _ _).mpr (.inl (hfiled hlt))⟩
    closed := fun q hq hstill other hmem => by
      have hbefore : ¬ (l.latches.isOpen q.latch = true ∨ q.latch = latch ∧ start.next ≤ active) := by
        rw [← hopen, hstill]
        simp
      obtain ⟨hbefore, hunreached⟩ := not_or.mp hbefore
      have hbefore' : l.latches.isOpen q.latch = false := by simpa using hbefore
      rcases hq with rfl | hq
      · rcases List.mem_append.mp hmem with hmem | hmem
        · exact (hfile _ _ _).mpr (.inl (keeps.closed _ (.inl rfl) hbefore' other hmem))
        · obtain rfl := List.mem_singleton.mp hmem
          exact (hfile _ _ _).mpr (.inr ⟨rfl, rfl, rfl, hbefore',
            UInt64.not_le.mp fun hle => hunreached ⟨rfl, hle⟩⟩)
      · exact (hfile _ _ _).mpr (.inl (keeps.closed q (.inr hq) hbefore' other hmem)) }

/-- A latch is withdrawn from everywhere, and its wait is over. -/
theorem deregister (keeps : l.Keeps used waits) (alone : ∀ q, waits q → q.latch = p.latch → q = p) :
    (l.deregister p.filed p.start p.latch).Keeps used fun q => q.latch ≠ p.latch ∧ waits q where
  waiting := keeps.waiting.deregister _ _ _
  occupied := keeps.occupied.deregister _ _ _
  opened_used latch hopen := by
    rw [latches_deregister] at hopen
    exact keeps.opened_used latch hopen
  waits_used q hq := keeps.waits_used q hq.2
  owned h trigger latch hfiled := by
    obtain ⟨hfiled, hstill⟩ := (filed_deregister _ _ _ _ _ _ _).mp hfiled
    obtain ⟨q, hq, rfl, rfl, hmem⟩ := keeps.owned h trigger latch hfiled
    refine ⟨q, ⟨fun hsame => ?_, hq⟩, rfl, rfl, hmem⟩
    obtain rfl := alone q hq hsame
    exact hstill ⟨hmem, rfl, rfl⟩
  placed q hq h hmem := by
    obtain ⟨active, hactive, hfiled⟩ := keeps.placed q hq.2 h hmem
    refine ⟨active, (activeOf_deregister _ _ _ _ _).trans hactive, fun hlt => ?_⟩
    exact (filed_deregister _ _ _ _ _ _ _).mpr ⟨hfiled hlt, fun hsame => hq.1 hsame.2.2⟩
  closed q hq hclosed h hmem := by
    rw [latches_deregister] at hclosed
    exact (filed_deregister _ _ _ _ _ _ _).mpr
      ⟨keeps.closed q hq.2 hclosed h hmem, fun hsame => hq.1 hsame.2.2⟩

/-- Where nobody waits there is no bucket. -/
theorem bucketCount_eq_zero (keeps : l.Keeps used waits) (nobody : ∀ p, ¬ waits p) : l.bucketCount = 0 :=
  keeps.occupied.bucketCount_eq_zero fun h trigger latch hfiled => by
    obtain ⟨p, hp, -⟩ := keeps.owned h trigger latch hfiled
    exact nobody p hp

/-- A closed latch is opened by a version of the object only if the version is after its start. -/
theorem opened_by_activate {latch : LatchId} {filed : List Handle} {start : Version}
    (keeps : l.Keeps used fun q => q = ⟨latch, filed, start⟩ ∨ waits q)
    (alone : ∀ q, waits q → q.latch ≠ latch) (closed : l.latches.isOpen latch = false) :
    (l.activate h v).latches.isOpen latch = false ∨ start.next ≤ v := by
  rw [← Bool.not_eq_true, ← imp_iff_not_or, keeps.waiting.isOpen_activate]
  rintro (hopen | ⟨trigger, hle, hfiled⟩)
  · rw [closed] at hopen
    cases hopen
  · obtain ⟨q, rfl | hq, hlatch, rfl, -⟩ := keeps.owned h trigger latch hfiled
    · exact hle
    · exact absurd hlatch (alone q hq)

end Keeps

/-! ## What the listeners learn -/

/-- Activating a version gives no object listeners, and theirs only advance. -/
theorem Waiting.of_activate (waiting : l.Waiting) {other : Handle} {active : Version}
    (listened : (l.activate h v).activeOf other = some active) :
    ∃ before, l.activeOf other = some before ∧ before ≤ active := by
  obtain ⟨before, hbefore⟩ : ∃ before, l.activeOf other = some before := by
    rw [activeOf_activate] at listened
    split at listened
    · next hsame =>
      obtain ⟨before, hbefore, -⟩ := Option.map_eq_some_iff.mp listened
      exact ⟨before, hsame ▸ hbefore⟩
    · exact ⟨active, listened⟩
  obtain ⟨active', hactive', hle⟩ := (waiting.leads_activate h v).active other before hbefore
  obtain rfl : active' = active := Option.some.inj (hactive'.symm.trans listened)
  exact ⟨before, hbefore, hle⟩

variable [Transactables] {head : Snapshot} {pending pending' : Handle → Version → Prop}

/-- Whoever has listeners is known to them by the version in the head, unless that is still to be
announced. -/
def Knows (l : Listeners) (head : Snapshot) (pending : Handle → Version → Prop) : Prop :=
  ∀ h active, l.activeOf h = some active → head.written h ≤ active ∨ pending h (head.written h)

namespace Knows

/-- Making sure of a group and activating the version in the head, one learns of it. -/
theorem look (knows : l.Knows head pending) (h : Handle) :
    ((l.ensureGroup h).activate h (head.written h)).Knows head pending := by
  intro other active hactive
  by_cases hsame : other = h
  · subst hsame
    exact .inl (le_of_activate hactive)
  · rw [activeOf_activate, if_neg hsame, activeOf_ensureGroup, if_neg hsame] at hactive
    exact knows other active hactive

theorem congr (knows : l.Knows head pending)
    (activeOf : ∀ h active, l'.activeOf h = some active → l.activeOf h = some active) :
    l'.Knows head pending := fun h active hactive => knows h active (activeOf h active hactive)

/-- Announcing a commit, object by object. -/
theorem notify (knows : l.Knows head pending) (waiting : l.Waiting) {handles : List Handle}
    (rest : ∀ h v', pending h v' → pending' h v' ∨ h ∈ handles ∧ v' ≤ v) :
    (l.notify handles v).Knows head pending' := by
  induction handles generalizing l pending with
  | nil =>
    refine fun h active hactive => (knows h active hactive).imp_right fun hpending => ?_
    exact (rest h _ hpending).resolve_right fun hnone => List.not_mem_nil hnone.1
  | cons h later ih =>
    -- what is left to announce after the first object
    have hfirst : (l.activate h v).Knows head fun h' v' =>
        pending' h' v' ∨ pending h' v' ∧ h' ∈ later ∧ v' ≤ v := by
      intro other active hactive
      obtain ⟨before, hbefore, hle⟩ := waiting.of_activate hactive
      rcases knows other before hbefore with hknown | hpending
      · exact .inl (UInt64.le_trans hknown hle)
      rcases rest other _ hpending with hpending' | ⟨hmem, hle'⟩
      · exact .inr (.inl hpending')
      rcases List.mem_cons.mp hmem with rfl | hmem
      · exact .inl (UInt64.le_trans hle' (le_of_activate hactive))
      · exact .inr (.inr ⟨hpending, hmem, hle'⟩)
    exact ih hfirst (waiting.activate h v) fun h' v' hleft => hleft.imp_right fun hleft => hleft.2

end Knows

/-! ## Whole registrations -/

/-- Somebody has come to wait: the latch is filed with the first of the wanted objects, and with all of
them unless it is open. -/
structure Admits (l l' : Listeners) (head : Snapshot) (used : LatchId → Prop) (waits : Parked → Prop)
    (pending : Handle → Version → Prop) (p : Parked) (wanted : List Handle) : Prop where
  leads : l.Leads l'
  keeps : l'.Keeps used fun q => q = p ∨ waits q
  knows : l'.Knows head pending
  part : p.filed <+: wanted
  whole : l'.latches.isOpen p.latch = false → p.filed = wanted

/-- Registering for objects of the head goes through, object by object. -/
theorem Keeps.registerFrom {latch : LatchId} {start : Version} {filed handles : List Handle}
    (keeps : l.Keeps used fun q => q = ⟨latch, filed, start⟩ ∨ waits q)
    (alone : ∀ q, waits q → q.latch ≠ latch)
    (knows : l.Knows head pending) (closed : l.latches.isOpen latch = false)
    (stored : ∀ h ∈ handles, ∃ v, head.versionOf h = some v) : ∃ filed' l',
    registerFrom head start latch filed handles l = .ok filed' l' ∧
      l.Admits l' head used waits pending ⟨latch, filed', start⟩ (filed ++ handles) := by
  induction handles generalizing l filed with
  | nil =>
    rw [List.append_nil]
    exact ⟨filed, l, rfl, .refl l, keeps, knows, List.prefix_refl _, fun _ => rfl⟩
  | cons h later ih =>
    obtain ⟨seen, hfound⟩ := stored h List.mem_cons_self
    obtain rfl : head.written h = seen := by rw [Snapshot.written, hfound, Option.getD_some]
    have hensured := keeps.ensureGroup h
    have hlooked := hensured.activate h (head.written h)
    have hleads := (l.leads_ensureGroup h).trans (hensured.waiting.leads_activate h (head.written h))
    obtain ⟨active, hactive⟩ : ∃ active,
        ((l.ensureGroup h).activate h (head.written h)).activeOf h = some active := by
      rw [activeOf_activate, if_pos rfl, activeOf_ensureGroup, if_pos rfl]
      exact ⟨_, rfl⟩
    have hdue := (hensured.opened_by_activate (h := h) (v := head.written h) alone
      ((congrArg (Latches.isOpen · latch) (l.latches_ensureGroup h)).trans closed)).imp_right
      fun hle => UInt64.le_trans hle (le_of_activate hactive)
    have hfiled := hlooked.file hactive hdue
    have hleads' := hleads.trans (hlooked.waiting.leads_file hactive start.next latch)
    have hknows : (((l.ensureGroup h).activate h (head.written h)).file h start.next latch).Knows
        head pending := (knows.look h).congr fun other known hknown => by
      rwa [hlooked.waiting.activeOf_file hactive] at hknown
    simp only [Listeners.registerFrom, hfound]
    split
    · next hopen =>
      refine ⟨_, _, rfl, hleads', hfiled, hknows, ?_, fun hclosed => ?_⟩
      · exact ⟨later, List.append_assoc _ _ _⟩
      · rw [hclosed] at hopen
        cases hopen
    · next hclosed =>
      obtain ⟨filed', l', hrun, hadmits⟩ := ih hfiled hknows (by simpa using hclosed)
        fun other hother => stored other (List.mem_cons_of_mem _ hother)
      rw [List.append_assoc, List.singleton_append] at hadmits
      exact ⟨filed', l', hrun, { hadmits with leads := hleads'.trans hadmits.leads }⟩

/-- Registering for objects of the head goes through, with a latch that nobody has used before. -/
theorem Keeps.register {latch : LatchId} {start : Version} {handles : List Handle}
    (keeps : l.Keeps used waits) (unused : ¬ used latch) (knows : l.Knows head pending)
    (nonempty : handles ≠ []) (stored : ∀ h ∈ handles, ∃ v, head.versionOf h = some v) :
    ∃ filed l', Listeners.register head handles start latch l = .ok filed l' ∧
      l.Admits l' head (fun other => other = latch ∨ used other) waits pending
        ⟨latch, filed, start⟩ handles := by
  rw [Listeners.register, if_neg (by simpa using nonempty)]
  refine (keeps.begin start).registerFrom (fun q hq hsame => ?_) knows ?_ stored
  · exact unused (hsame ▸ keeps.waits_used q hq)
  · exact Bool.eq_false_iff.mpr fun hopen => unused (keeps.opened_used latch hopen)

end Listeners

end TransactionalHeap
