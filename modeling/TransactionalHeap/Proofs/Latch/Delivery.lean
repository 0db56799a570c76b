import Mathlib.Data.Set.Card
import TransactionalHeap.Proofs.Latch.Group
import TransactionalHeap.Proofs.SortedMap.Lookup

/-!
# When a group opens its latches

Latches are added to a group under triggers, withdrawn again, and opened directly, in any order and
with any repetition, while versions are activated. The history of all this says which latches are
due: those that were opened directly, and those that were added under a trigger which the active
version had reached or came to reach before they were withdrawn. Just these are open, and just the
others are filed (`LatchGroup.opens_what_is_due`).
-/
namespace TransactionalHeap

namespace LatchGroup

/-- What happens to a group and to the latches around it. -/
inductive Event where
  | add (trigger : Version) (latch : LatchId)
  | remove (trigger : Version) (latch : LatchId)
  | activate (version : Version)
  | openLatch (latch : LatchId)
  deriving DecidableEq, Repr

def step : LatchGroup × Latches → Event → LatchGroup × Latches
  | (g, ls), .add trigger latch => g.add trigger latch ls
  | (g, ls), .remove trigger latch => (g.remove trigger latch, ls)
  | (g, ls), .activate version => g.activate version ls
  | (g, ls), .openLatch latch => (g, ls.openOne latch)

/-- A new group after everything that happened to it, and the latches. -/
def after (initial : Version) (events : List Event) : LatchGroup × Latches :=
  events.foldl step ({ active := initial }, {})

/-! ## What the history says -/

/-- The version that an event activates. -/
def Event.activated? : Event → Option Version
  | .activate version => some version
  | .add .. | .remove .. | .openLatch _ => none

/-- All versions that were activated, the initial one first. -/
def activated (initial : Version) (events : List Event) : List Version :=
  initial :: events.filterMap Event.activated?

/-- A version was activated that reaches the trigger. -/
def Reached (initial : Version) (events : List Event) (trigger : Version) : Prop :=
  ∃ v ∈ activated initial events, trigger ≤ v

/-- The latch was opened directly, or added under a trigger that was reached then or became so before
the latch was withdrawn from it. -/
def Due (initial : Version) (events : List Event) (latch : LatchId) : Prop :=
  .openLatch latch ∈ events ∨
  ∃ trigger before between later, events = before ++ .add trigger latch :: (between ++ later) ∧
    .remove trigger latch ∉ between ∧ Reached initial (before ++ between) trigger

/-- The latch was added under the trigger and not withdrawn from it since. -/
def Added (events : List Event) (trigger : Version) (latch : LatchId) : Prop :=
  ∃ before later, events = before ++ .add trigger latch :: later ∧ .remove trigger latch ∉ later

/-- The latch was not open yet when it was added so. -/
def AddedClosed (initial : Version) (events : List Event) (trigger : Version) (latch : LatchId) :
    Prop :=
  ∃ before later, events = before ++ .add trigger latch :: later ∧ .remove trigger latch ∉ later ∧
    ¬ Due initial before latch

variable {initial : Version} {events : List Event} {e : Event} {trigger : Version} {latch : LatchId}

/-! ## One more event -/

theorem after_append (events : List Event) (e : Event) :
    after initial (events ++ [e]) = step (after initial events) e := by
  rw [after, List.foldl_append]
  rfl

theorem activated_append (initial : Version) (events : List Event) (e : Event) :
    activated initial (events ++ [e]) = activated initial events ++ e.activated?.toList := by
  rw [activated, List.filterMap_append, activated, List.cons_append]
  cases e <;> rfl

theorem reached_append : Reached initial (events ++ [e]) trigger ↔
    Reached initial events trigger ∨ ∃ v, e = .activate v ∧ trigger ≤ v := by
  simp only [Reached, activated_append, List.mem_append, or_and_right, exists_or]
  refine or_congr_right ?_
  cases e <;> simp [Event.activated?]

/-- A list that ends in an event is split before that event, or by it. -/
theorem append_singleton_eq_split {before later : List Event} {a : Event} :
    events ++ [e] = before ++ a :: later ↔
      before = events ∧ a = e ∧ later = [] ∨
      ∃ later', later = later' ++ [e] ∧ events = before ++ a :: later' := by
  constructor
  · intro heq
    rcases List.eq_nil_or_concat later with rfl | ⟨later', last, rfl⟩
    · obtain ⟨hevents, hlast⟩ := List.append_inj' heq rfl
      exact .inl ⟨hevents.symm, (List.singleton_inj.mp hlast).symm, rfl⟩
    · rw [List.concat_eq_append, ← List.cons_append, ← List.append_assoc] at heq
      obtain ⟨hevents, hlast⟩ := List.append_inj' heq rfl
      obtain rfl := List.singleton_inj.mp hlast
      exact .inr ⟨later', List.concat_eq_append, hevents⟩
  · rintro (⟨rfl, rfl, rfl⟩ | ⟨later', rfl, rfl⟩)
    · rfl
    · rw [List.append_assoc, List.cons_append]

theorem addedClosed_append : AddedClosed initial (events ++ [e]) trigger latch ↔
    e = .add trigger latch ∧ ¬ Due initial events latch ∨
      AddedClosed initial events trigger latch ∧ e ≠ .remove trigger latch := by
  simp only [AddedClosed, append_singleton_eq_split]
  constructor
  · rintro ⟨before, later, ⟨rfl, rfl, rfl⟩ | ⟨later', rfl, rfl⟩, hkept, hclosed⟩
    · exact .inl ⟨rfl, hclosed⟩
    · simp only [List.mem_append, List.mem_singleton, not_or] at hkept
      exact .inr ⟨⟨before, later', rfl, hkept.1, hclosed⟩, Ne.symm hkept.2⟩
  · rintro (⟨rfl, hclosed⟩ | ⟨⟨before, later, rfl, hkept, hclosed⟩, hne⟩)
    · exact ⟨events, [], .inl ⟨rfl, rfl, rfl⟩, List.not_mem_nil, hclosed⟩
    · refine ⟨before, later ++ [e], .inr ⟨later, rfl, rfl⟩, ?_, hclosed⟩
      simp [hkept, Ne.symm hne]

/-- What is due stays due. -/
theorem Due.mono (due : Due initial events latch) (more : List Event) :
    Due initial (events ++ more) latch := by
  rcases due with hopened | ⟨trigger, before, between, later, rfl, hkept, hreached⟩
  · exact .inl (List.mem_append_left _ hopened)
  · refine .inr ⟨trigger, before, between, later ++ more, ?_, hkept, hreached⟩
    simp only [List.append_assoc, List.cons_append]

/-- A latch becomes due when it is opened, when it is added under a trigger that is reached, and when
the trigger of one that was added is reached. -/
theorem due_append : Due initial (events ++ [e]) latch ↔ Due initial events latch ∨
    e = .openLatch latch ∨ (∃ trigger, e = .add trigger latch ∧ Reached initial events trigger) ∨
    ∃ v, e = .activate v ∧ ∃ trigger, trigger ≤ v ∧ Added events trigger latch := by
  constructor
  · rintro (hopened | ⟨trigger, before, between, later, hsplit, hkept, hreached⟩)
    · rcases List.mem_append.mp hopened with hopened | hopened
      · exact .inl (.inl hopened)
      · exact .inr (.inl (List.mem_singleton.mp hopened).symm)
    rcases append_singleton_eq_split.mp hsplit with ⟨rfl, hadd, hrest⟩ | ⟨rest, hrest, rfl⟩
    · obtain ⟨rfl, rfl⟩ := List.append_eq_nil_iff.mp hrest
      rw [List.append_nil] at hreached
      exact .inr (.inr (.inl ⟨trigger, hadd.symm, hreached⟩))
    rcases List.eq_nil_or_concat later with rfl | ⟨later', last, rfl⟩
    · -- the last event comes before the trigger is reached, or it is what reaches the trigger
      rw [List.append_nil] at hrest
      subst hrest
      simp only [List.mem_append, List.mem_singleton, not_or] at hkept
      rw [← List.append_assoc, reached_append] at hreached
      rcases hreached with hreached | ⟨v, rfl, hle⟩
      · exact .inl (.inr ⟨trigger, before, rest, [], by rw [List.append_nil], hkept.1, hreached⟩)
      · exact .inr (.inr (.inr ⟨v, rfl, trigger, hle, before, rest, rfl, hkept.1⟩))
    · rw [List.concat_eq_append, ← List.append_assoc] at hrest
      obtain ⟨rfl, -⟩ := List.append_inj' hrest rfl
      exact .inl (.inr ⟨trigger, before, between, later', rfl, hkept, hreached⟩)
  · rintro (hdue | rfl | ⟨trigger, rfl, hreached⟩ | ⟨v, rfl, trigger, hle, before, later, rfl, hkept⟩)
    · exact hdue.mono _
    · exact .inl (List.mem_append_right _ (List.mem_singleton_self _))
    · refine .inr ⟨trigger, events, [], [], rfl, List.not_mem_nil, ?_⟩
      rwa [List.append_nil]
    · refine .inr ⟨trigger, before, later ++ [.activate v], [], ?_, by simp [hkept], ?_⟩
      · rw [List.append_nil, List.append_assoc, List.cons_append]
      · rw [← List.append_assoc, reached_append]
        exact .inr ⟨v, rfl, hle⟩

/-- A latch that was added and is not due was closed then, and its trigger is still to come. -/
theorem Added.closed (added : Added events trigger latch) (notDue : ¬ Due initial events latch) :
    AddedClosed initial events trigger latch ∧ ¬ Reached initial events trigger := by
  obtain ⟨before, later, rfl, hkept⟩ := added
  refine ⟨⟨before, later, rfl, hkept, fun hdue => notDue (hdue.mono _)⟩, fun ⟨v, hv, hle⟩ => ?_⟩
  refine notDue (.inr ⟨trigger, before, later, [], by rw [List.append_nil], hkept, v, ?_, hle⟩)
  simpa [activated, Event.activated?] using hv

theorem AddedClosed.added (added : AddedClosed initial events trigger latch) :
    Added events trigger latch := by
  obtain ⟨before, later, rfl, hkept, -⟩ := added
  exact ⟨before, later, rfl, hkept⟩

/-! ## What the group knows of it -/

/-- The group and the latches are what the history says. -/
structure Follows (initial : Version) (events : List Event) (s : LatchGroup × Latches) : Prop where
  waiting : s.1.Waiting
  occupied : s.1.Occupied
  active : s.1.active ∈ activated initial events ∧ ∀ v ∈ activated initial events, v ≤ s.1.active
  opened : ∀ latch, s.2.isOpen latch = true ↔ Due initial events latch
  filed : ∀ trigger latch, s.1.Filed trigger latch ↔
    s.1.active < trigger ∧ AddedClosed initial events trigger latch

namespace Follows

variable {s : LatchGroup × Latches}

theorem reached_iff (follows : Follows initial events s) (trigger : Version) :
    Reached initial events trigger ↔ trigger ≤ s.1.active := by
  obtain ⟨hmem, hgreatest⟩ := follows.active
  exact ⟨fun ⟨v, hv, hle⟩ => UInt64.le_trans hle (hgreatest v hv), fun hle => ⟨_, hmem, hle⟩⟩

/-- A trigger that is not reached is still to come. -/
theorem not_reached_iff (follows : Follows initial events s) (trigger : Version) :
    ¬ Reached initial events trigger ↔ s.1.active < trigger := by
  rw [follows.reached_iff, UInt64.not_le]

/-- A latch that is added or withdrawn leaves the active version alone. -/
theorem active_of_same (follows : Follows initial events s) {s' : LatchGroup × Latches}
    (same : s'.1.active = s.1.active) (silent : e.activated? = none) :
    s'.1.active ∈ activated initial (events ++ [e]) ∧
      ∀ v ∈ activated initial (events ++ [e]), v ≤ s'.1.active := by
  rw [activated_append, silent, same]
  simpa using follows.active

theorem add (follows : Follows initial events s) (trigger : Version) (latch : LatchId) :
    Follows initial (events ++ [.add trigger latch]) (s.1.add trigger latch s.2) where
  waiting := follows.waiting.add trigger latch s.2
  occupied := follows.occupied.add follows.waiting trigger latch s.2
  active := follows.active_of_same (follows.waiting.active_add trigger latch s.2) rfl
  opened other := by
    rw [isOpen_add _ _ _ _ follows.waiting, follows.opened, due_append]
    refine or_congr_right ?_
    simp only [reduceCtorEq, false_or, false_and, exists_false, or_false, Event.add.injEq]
    constructor
    · rintro ⟨rfl, hle⟩
      exact ⟨trigger, ⟨rfl, rfl⟩, (follows.reached_iff trigger).mpr hle⟩
    · rintro ⟨_, ⟨rfl, rfl⟩, hreached⟩
      exact ⟨rfl, (follows.reached_iff trigger).mp hreached⟩
  filed trigger' other := by
    have hclosed : s.2.isOpen latch = false ↔ ¬ Due initial events latch := by
      rw [← follows.opened, Bool.not_eq_true]
    rw [follows.waiting.filed_add, follows.waiting.active_add, follows.filed, addedClosed_append,
      hclosed]
    simp only [Event.add.injEq, ne_eq, reduceCtorEq, not_false_eq_true, and_true]
    constructor
    · rintro (⟨hlt, hadded⟩ | ⟨rfl, rfl, hnotDue, hlt⟩)
      · exact ⟨hlt, .inr hadded⟩
      · exact ⟨hlt, .inl ⟨⟨rfl, rfl⟩, hnotDue⟩⟩
    · rintro ⟨hlt, ⟨⟨rfl, rfl⟩, hnotDue⟩ | hadded⟩
      · exact .inr ⟨rfl, rfl, hnotDue, hlt⟩
      · exact .inl ⟨hlt, hadded⟩

theorem remove (follows : Follows initial events s) (trigger : Version) (latch : LatchId) :
    Follows initial (events ++ [.remove trigger latch]) (s.1.remove trigger latch, s.2) where
  waiting := follows.waiting.remove trigger latch
  occupied := follows.occupied.remove trigger latch
  active := follows.active_of_same (active_remove s.1 trigger latch) rfl
  opened other := by
    rw [follows.opened, due_append]
    simp only [reduceCtorEq, false_and, exists_false, or_false]
  filed trigger' other := by
    rw [filed_remove, active_remove, follows.filed, addedClosed_append]
    simp only [reduceCtorEq, false_and, false_or, ne_eq, Event.remove.injEq, and_assoc]
    rw [eq_comm (a := trigger'), eq_comm (a := other)]

theorem activate (follows : Follows initial events s) (v : Version) :
    Follows initial (events ++ [.activate v]) (s.1.activate v s.2) where
  waiting := follows.waiting.activate v s.2
  occupied := follows.occupied.activate v s.2
  active := by
    obtain ⟨hmem, hgreatest⟩ := follows.active
    rw [active_activate, activated_append]
    split
    · next hle =>
      refine ⟨List.mem_append_left _ hmem, fun u hu => ?_⟩
      rcases List.mem_append.mp hu with hu | hu
      · exact hgreatest u hu
      · obtain rfl := List.mem_singleton.mp hu
        exact hle
    · next hgt =>
      refine ⟨List.mem_append_right _ (List.mem_singleton_self v), fun u hu => ?_⟩
      rcases List.mem_append.mp hu with hu | hu
      · exact UInt64.le_trans (hgreatest u hu) (UInt64.le_of_lt (UInt64.not_le.mp hgt))
      · obtain rfl := List.mem_singleton.mp hu
        exact UInt64.le_refl u
  opened other := by
    rw [follows.waiting.isOpen_activate, follows.opened, due_append]
    simp only [reduceCtorEq, false_and, exists_false, false_or, Event.activate.injEq]
    constructor
    · rintro (hdue | ⟨trigger, hle, hfiled⟩)
      · exact .inl hdue
      · exact .inr ⟨v, rfl, trigger, hle, ((follows.filed trigger other).mp hfiled).2.added⟩
    · rintro (hdue | ⟨_, rfl, trigger, hle, hadded⟩)
      · exact .inl hdue
      · by_cases hdue : Due initial events other
        · exact .inl hdue
        · obtain ⟨hclosed, hunreached⟩ := hadded.closed hdue
          have hlt := (follows.not_reached_iff trigger).mp hunreached
          exact .inr ⟨trigger, hle, (follows.filed trigger other).mpr ⟨hlt, hclosed⟩⟩
  filed trigger other := by
    rw [follows.waiting.filed_activate, active_activate, follows.filed, addedClosed_append]
    simp only [reduceCtorEq, false_and, false_or, ne_eq, not_false_eq_true, and_true]
    split
    · next hle =>
      refine ⟨fun h => h.1, fun h => ⟨h, UInt64.lt_of_le_of_lt hle h.1⟩⟩
    · next hgt =>
      refine ⟨fun h => ⟨h.2, h.1.2⟩, fun h => ⟨⟨?_, h.2⟩, h.1⟩⟩
      exact UInt64.lt_trans (UInt64.not_le.mp hgt) h.1

theorem openLatch (follows : Follows initial events s) (latch : LatchId) :
    Follows initial (events ++ [.openLatch latch]) (s.1, s.2.openOne latch) where
  waiting := follows.waiting
  occupied := follows.occupied
  active := follows.active_of_same rfl rfl
  opened other := by
    rw [Latches.isOpen_openOne, Bool.or_eq_true, follows.opened, due_append, or_comm, beq_iff_eq]
    simp only [reduceCtorEq, false_and, exists_false, or_false, Event.openLatch.injEq]
    rw [eq_comm (a := other)]
  filed trigger other := by
    rw [follows.filed, addedClosed_append]
    simp only [reduceCtorEq, false_and, false_or, ne_eq, not_false_eq_true, and_true]

/-- The number of buckets is that of the triggers to come under which a latch is still to be opened. -/
theorem bucketCount_eq (follows : Follows initial events s) : s.1.bucketCount =
    {trigger | s.1.active < trigger ∧ ∃ latch, AddedClosed initial events trigger latch}.ncard := by
  have hkeys : {trigger | s.1.active < trigger ∧ ∃ latch, AddedClosed initial events trigger latch} =
      ↑s.1.buckets.keys.toFinset := by
    ext trigger
    rw [List.coe_toFinset, Set.mem_ofPred_eq, Set.mem_ofPred_eq, follows.occupied.mem_keys_iff]
    simp only [follows.filed, exists_and_left]
  rw [hkeys, Set.ncard_coe_finset, List.toFinset_card_of_nodup s.1.buckets.nodup_keys,
    SortedMap.keys, List.length_map]
  rfl

end Follows

/-- One event after another, the group and the latches follow their history. -/
theorem follows_after (initial : Version) (events : List Event) :
    Follows initial events (after initial events) := by
  induction events using List.reverseRecOn with
  | nil =>
    refine ⟨fun _ _ hfound => ?_, fun _ _ hfound => ?_, ⟨List.mem_singleton_self _, ?_⟩, ?_, ?_⟩
    · cases hfound
    · cases hfound
    · exact fun v hv => UInt64.le_of_eq (List.mem_singleton.mp hv)
    · intro latch
      simp [after, Due, Latches.isOpen]
    · intro trigger latch
      simp [after, Filed, AddedClosed]
  | append_singleton events e follows =>
    rw [after_append]
    cases e with
    | add trigger latch => exact follows.add trigger latch
    | remove trigger latch => exact follows.remove trigger latch
    | activate v => exact follows.activate v
    | openLatch latch => exact follows.openLatch latch

/-- A group delivers every wakeup once it is due, and none before.

Its active version is the greatest that was activated. Every bucket waits for a version still to come,
is closed, and holds something. Open are just the latches that are due, and there is a bucket for every
trigger still to come under which a closed latch was added and not withdrawn. -/
theorem opens_what_is_due (initial : Version) (events : List Event) :
    let g := (after initial events).1
    let ls := (after initial events).2
    (g.active ∈ activated initial events ∧ ∀ v ∈ activated initial events, v ≤ g.active) ∧
    (∀ trigger bucket, g.buckets.find? trigger = some bucket →
      g.active < trigger ∧ bucket.isOpen = false ∧ bucket.latches ≠ []) ∧
    (∀ latch, ls.isOpen latch = true ↔ Due initial events latch) ∧
    g.bucketCount =
      {trigger | g.active < trigger ∧ ∃ latch, AddedClosed initial events trigger latch}.ncard := by
  intro g ls
  have follows := follows_after initial events
  refine ⟨follows.active, fun trigger bucket hfound => ?_, follows.opened, follows.bucketCount_eq⟩
  obtain ⟨hlt, hclosed⟩ := follows.waiting trigger bucket hfound
  exact ⟨hlt, hclosed, follows.occupied trigger bucket hfound⟩

-- latch 1 is due through the first of its two triggers and stays filed under the second
example :
    let s := after 0 [.add 5 1, .add 9 1, .add 9 2, .activate 7]
    (s.1.active, s.1.bucketCount, s.2.isOpen 1, s.2.isOpen 2) = (7, 1, true, false) := by decide

end LatchGroup

end TransactionalHeap
