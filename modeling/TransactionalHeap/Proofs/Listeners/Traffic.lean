import TransactionalHeap.Object.Stock
import TransactionalHeap.Proofs.Heap.CommitLog
import TransactionalHeap.Proofs.Listeners.Registering

/-!
# Registrants and committers among each other

Any number of registrants take their steps while others commit. A commit is in the heap at once and
is announced later, one written object at a time, in any order and with anything in between. However
these events are mixed, no latch is opened without a write that its registration waits for, and none
stays closed over such a write once everything is announced (`Traffic.wakes_for_writes`).
-/
namespace TransactionalHeap

section

variable [Transactables]

structure Traffic where
  heap : Heap
  listeners : Listeners := {}
  registrants : SortedMap LatchId Registrant := ∅
  /-- The writes that were committed and not announced since. -/
  unannounced : List (Handle × Version) := []

/-- What a commit has to announce. -/
def Published.announcements (p : Published) : List (Handle × Version) :=
  p.writes.map fun w => (w.handle, p.version)

namespace Traffic

inductive Event where
  | commit (call : Heap.Rival)
  | announce (h : Handle) (v : Version)
  | register (latch : LatchId) (handles : List Handle) (start : Version)
      (room : start.toNat + 1 < 2 ^ 64)
  | advance (latch : LatchId)
  | deregister (latch : LatchId)

def ofVersion (version : Version) : Traffic := { heap := .ofVersion version }

def follow (t : Traffic) (latch : LatchId) (p : Listeners × Registrant) : Traffic :=
  { t with
    listeners := p.1
    registrants := t.registrants.insert latch p.2 }

/-- An event that cannot happen changes nothing: an announcement of what was not committed or is
announced already, a registration under a used latch or of no objects, steps of nobody. -/
def step (t : Traffic) : Event → Traffic
  | .commit call =>
    { t with
      heap := (call.run t.heap).2
      unannounced := t.unannounced ++
        (call.logged (call.run t.heap).1).toList.flatMap Published.announcements }
  | .announce h v =>
    if (h, v) ∈ t.unannounced then
      { t with
        listeners := t.listeners.activate h v
        unannounced := t.unannounced.erase (h, v) }
    else t
  | .register latch handles start room =>
    if t.registrants.contains latch || handles.isEmpty then t
    else t.follow latch (t.listeners, .new handles start room)
  | .advance latch =>
    match t.registrants.find? latch with
    | none => t
    | some q => t.follow latch (q.advance latch t.heap.head t.listeners)
  | .deregister latch =>
    match t.registrants.find? latch with
    | none => t
    | some q => if q.stage = .registered then t.follow latch (t.listeners, q.giveUp) else t

def run (events : List Event) (t : Traffic) : Traffic := events.foldl step t

/-! ## The invariant -/

/-- Who has registered a latch, and how. -/
def registered (t : Traffic) (latch : LatchId) (r : Registration) : Prop :=
  ∃ q, t.registrants.find? latch = some q ∧ q.reg = r

/-- The listeners serve every registrant, and each of them is where it may be. -/
structure Sound (t : Traffic) : Prop where
  built : t.heap.head.Built fun _ => True
  serves : t.listeners.Serves t.heap.head (fun latch => ∃ q, t.registrants.find? latch = some q)
    t.registered fun h v => (h, v) ∈ t.unannounced
  sound : ∀ latch q, t.registrants.find? latch = some q →
    q.Sound latch t.listeners t.heap.head fun h v => (h, v) ∈ t.unannounced

theorem sound_ofVersion (version : Version) : (ofVersion version).Sound where
  built := .genesis version
  serves := .empty _ _ (fun latch r ⟨q, hq, _⟩ => by cases hq) (fun h v hpending => by cases hpending)
  sound latch q hq := by cases hq

variable {t : Traffic} {latch : LatchId} {p : Listeners × Registrant}

theorem Sound.held (sound : t.Sound) {q : Registrant} (found : t.registrants.find? latch = some q) :
    Registrant.Held latch t.heap.head (fun latch => ∃ q, t.registrants.find? latch = some q)
      t.registered (fun h v => (h, v) ∈ t.unannounced) (t.listeners, q) where
  serves := sound.serves.congr (fun _ hused => hused) (sound.serves.reassign_self ⟨q, found, rfl⟩)
  sound := sound.sound latch q found

/-- One registrant takes a step, and the others see that the listeners lead. -/
theorem Sound.follow (sound : t.Sound) {used : LatchId → Prop}
    (held : Registrant.Held latch t.heap.head used t.registered
      (fun h v => (h, v) ∈ t.unannounced) p)
    (hused : ∀ other, used other → other = latch ∨ ∃ q, t.registrants.find? other = some q)
    (leads : t.listeners.Leads p.1) : (t.follow latch p).Sound where
  built := sound.built
  serves := by
    refine held.serves.congr (fun other hother => ?_) fun other r => ?_
    · by_cases hsame : other = latch
      · exact ⟨p.2, hsame ▸ SortedMap.find?_insert_self _ _ _⟩
      · obtain ⟨q, hq⟩ := (hused other hother).resolve_left hsame
        exact ⟨q, (SortedMap.find?_insert_of_ne _ _ hsame).trans hq⟩
    · by_cases hsame : other = latch
      · subst hsame
        simp [registered, Traffic.follow, reassign, eq_comm]
      · simp [registered, Traffic.follow, reassign, hsame, SortedMap.find?_insert_of_ne]
  sound other q hq := by
    rcases SortedMap.find?_of_insert hq with ⟨rfl, rfl⟩ | ⟨-, hq⟩
    · exact held.sound
    · exact (sound.sound other q hq).lead leads

/-! ## One event -/

/-- An event leaves the head as it is or extends it. -/
theorem step_head (t : Traffic) (event : Event) : (t.step event).heap.head = t.heap.head ∨
    ∃ writes, (t.step event).heap.head = t.heap.head.extend writes := by
  cases event with
  | commit call =>
    rcases call.run_cases t.heap with ⟨-, hsame⟩ | ⟨-, hnew⟩
    · exact .inl hsame
    · exact .inr ⟨_, hnew⟩
  | announce h v =>
    simp only [step]
    split <;> exact .inl rfl
  | register latch handles start room =>
    simp only [step]
    split <;> exact .inl rfl
  | advance latch =>
    simp only [step]
    split <;> exact .inl rfl
  | deregister latch =>
    simp only [step]
    split
    · exact .inl rfl
    · split <;> exact .inl rfl

theorem Sound.commit (sound : t.Sound) (call : Heap.Rival)
    (room : (t.step (.commit call)).heap.head.base.toNat + (t.step (.commit call)).heap.head.depth <
      2 ^ 64) : (t.step (.commit call)).Sound := by
  simp only [step] at room ⊢
  rcases call.run_cases t.heap with ⟨hlog, hsame⟩ | ⟨hlog, hnew⟩
  · rw [hlog]
    simp only [Option.toList_none, List.flatMap_nil, List.append_nil]
    exact ⟨hsame ▸ sound.built, hsame ▸ sound.serves, hsame ▸ sound.sound⟩
  · rw [hnew, Snapshot.base_extend, Snapshot.depth_extend] at room
    have hpending : ∀ h v, (h, v) ∈ t.unannounced ++
          (Published.mk t.heap.version.next call.writes).announcements ↔
        (h, v) ∈ t.unannounced ∨
          v = t.heap.head.version.next ∧ ∃ w ∈ call.writes, w.handle = h := by
      intro h v
      simp only [Published.announcements, List.mem_append, List.mem_map, Prod.mk.injEq, Heap.version]
      refine or_congr_right ⟨?_, ?_⟩
      · rintro ⟨w, hw, rfl, rfl⟩
        exact ⟨rfl, w, hw, rfl⟩
      · rintro ⟨rfl, w, hw, rfl⟩
        exact ⟨w, hw, rfl, rfl⟩
    rw [hlog]
    simp only [Option.toList_some, List.flatMap_cons, List.flatMap_nil, List.append_nil]
    refine ⟨?_, ?_, fun latch q hq => ?_⟩
    · rw [hnew]
      exact sound.built.extend fun _ _ => trivial
    · rw [hnew]
      exact sound.serves.commit sound.built room call.writes hpending
    · rw [hnew]
      exact (sound.sound latch q hq).extend sound.built room call.writes
        (fun h v hv => (hpending h v).mpr (.inl hv))
        fun w hw => (hpending _ _).mpr (.inr ⟨rfl, w, hw, rfl⟩)

theorem Sound.announce (sound : t.Sound) (h : Handle) (v : Version) :
    (t.step (.announce h v)).Sound := by
  simp only [step]
  split
  · next hpending =>
    have hfewer : ∀ h' v', (h', v') ∈ t.unannounced.erase (h, v) → (h', v') ∈ t.unannounced :=
      fun _ _ => List.mem_of_mem_erase
    have hrest : ∀ h' v', (h', v') ∈ t.unannounced →
        (h', v') ∈ t.unannounced.erase (h, v) ∨ h' = h ∧ v' ≤ v := by
      intro h' v' hmem
      by_cases hsame : (h', v') = (h, v)
      · cases hsame
        exact .inr ⟨rfl, UInt64.le_refl v⟩
      · exact .inl ((List.mem_erase_of_ne hsame).mpr hmem)
    exact ⟨sound.built, sound.serves.activate (sound.serves.pending_le h v hpending) hfewer hrest,
      fun latch q hq => (sound.sound latch q hq).announce sound.serves.waiting hrest⟩
  · exact sound

theorem Sound.register (sound : t.Sound) (latch : LatchId) (handles : List Handle) (start : Version)
    (room : start.toNat + 1 < 2 ^ 64) : (t.step (.register latch handles start room)).Sound := by
  simp only [step]
  split
  · exact sound
  · next hunused =>
    obtain ⟨hunused, -⟩ := not_or.mp (by simpa only [Bool.or_eq_true] using hunused)
    have hnone : ¬ ∃ q, t.registrants.find? latch = some q := by
      rwa [← SortedMap.contains_iff]
    have hserves := sound.serves.register (r := .fresh start room) hnone rfl
    exact sound.follow ⟨hserves, Registrant.sound_new room⟩ (fun _ hused => hused) (.refl _)

theorem Sound.advance (sound : t.Sound) (latch : LatchId)
    (room : t.heap.head.base.toNat + t.heap.head.depth < 2 ^ 64) :
    (t.step (.advance latch)).Sound := by
  simp only [step]
  split
  · exact sound
  · next q hfound =>
    obtain ⟨hheld, hleads⟩ := (sound.held hfound).turn sound.built room
    exact sound.follow hheld (fun _ hused => .inr hused) hleads

theorem Sound.deregister (sound : t.Sound) (latch : LatchId) :
    (t.step (.deregister latch)).Sound := by
  simp only [step]
  split
  · exact sound
  · next q hfound =>
    split
    · exact sound.follow (sound.held hfound).giveUp (fun _ hused => .inr hused) (.refl _)
    · exact sound

theorem Sound.step (sound : t.Sound) (event : Event)
    (room : (t.step event).heap.head.base.toNat + (t.step event).heap.head.depth < 2 ^ 64) :
    (t.step event).Sound := by
  cases event with
  | commit call => exact sound.commit call room
  | announce h v => exact sound.announce h v
  | register latch handles start fits => exact sound.register latch handles start fits
  | advance latch =>
    refine sound.advance latch ?_
    rcases t.step_head (.advance latch) with hsame | ⟨writes, hnew⟩
    · rwa [hsame] at room
    · rw [hnew, Snapshot.base_extend, Snapshot.depth_extend] at room
      omega
  | deregister latch => exact sound.deregister latch

/-- A registrant found after an event was there before it with the same registration, or the event has
brought it. -/
theorem requested_step {event : Event} {q : Registrant}
    (found : (t.step event).registrants.find? latch = some q) :
    (∃ before, t.registrants.find? latch = some before ∧ q.handles = before.handles ∧
      q.reg.start = before.reg.start) ∨
    ∃ room, event = .register latch q.handles q.reg.start room := by
  have unchanged : t.registrants.find? latch = some q → ∃ before,
      t.registrants.find? latch = some before ∧ q.handles = before.handles ∧
        q.reg.start = before.reg.start := fun hfound => ⟨q, hfound, rfl, rfl⟩
  cases event with
  | commit call => exact .inl (unchanged found)
  | announce h v =>
    simp only [step] at found
    split at found <;> exact .inl (unchanged found)
  | register other handles start room =>
    simp only [step] at found
    split at found
    · exact .inl (unchanged found)
    · rcases SortedMap.find?_of_insert found with ⟨rfl, rfl⟩ | ⟨-, hfound⟩
      · exact .inr ⟨room, rfl⟩
      · exact .inl (unchanged hfound)
  | advance other =>
    simp only [step] at found
    split at found
    · exact .inl (unchanged found)
    · next before hbefore =>
      rcases SortedMap.find?_of_insert found with ⟨rfl, rfl⟩ | ⟨-, hfound⟩
      · exact .inl ⟨before, hbefore, Registrant.advance_requested _ _ _ before⟩
      · exact .inl (unchanged hfound)
  | deregister other =>
    simp only [step] at found
    split at found
    · exact .inl (unchanged found)
    · next before hbefore =>
      split at found
      · rcases SortedMap.find?_of_insert found with ⟨rfl, rfl⟩ | ⟨-, hfound⟩
        · exact .inl ⟨before, hbefore, rfl, rfl⟩
        · exact .inl (unchanged hfound)
      · exact .inl (unchanged found)

/-! ## Runs -/

theorem run_head (events : List Event) (t : Traffic) :
    (run events t).heap.head.base = t.heap.head.base ∧
      t.heap.head.depth ≤ (run events t).heap.head.depth := by
  induction events generalizing t with
  | nil => exact ⟨rfl, Nat.le_refl _⟩
  | cons event later ih =>
    obtain ⟨hbase, hdepth⟩ := ih (t.step event)
    rcases t.step_head event with hsame | ⟨writes, hnew⟩
    · rw [hsame] at hbase hdepth
      exact ⟨hbase, hdepth⟩
    · rw [hnew, Snapshot.base_extend] at hbase
      rw [hnew, Snapshot.depth_extend] at hdepth
      exact ⟨hbase, Nat.le_of_succ_le hdepth⟩

theorem Sound.run (sound : t.Sound) (events : List Event)
    (room : t.heap.head.base.toNat + (run events t).heap.head.depth < 2 ^ 64) :
    (run events t).Sound := by
  induction events generalizing t with
  | nil => exact sound
  | cons event later ih =>
    have hlater : Traffic.run (event :: later) t = Traffic.run later (t.step event) := rfl
    rw [hlater] at room ⊢
    have hbase : (t.step event).heap.head.base = t.heap.head.base := (run_head [event] t).1
    have hdepth := (run_head later (t.step event)).2
    refine ih (sound.step event ?_) ?_
    · rw [hbase]
      exact Nat.lt_of_le_of_lt (Nat.add_le_add_left hdepth _) room
    · rwa [hbase]

/-- A registrant found after a run was there before it, or one of the events has brought it. -/
theorem requested_run (events : List Event) (t : Traffic) {q : Registrant}
    (found : (run events t).registrants.find? latch = some q) :
    (∃ before, t.registrants.find? latch = some before ∧ q.handles = before.handles ∧
      q.reg.start = before.reg.start) ∨
    ∃ room, .register latch q.handles q.reg.start room ∈ events := by
  induction events generalizing t with
  | nil => exact .inl ⟨q, found, rfl, rfl⟩
  | cons event later ih =>
    rcases ih (t.step event) found with ⟨between, hbetween, hhandles, hstart⟩ | ⟨room, hmem⟩
    · rw [hhandles, hstart]
      refine (requested_step hbetween).imp_right fun ⟨room, hevent⟩ => ⟨room, ?_⟩
      rw [hevent]
      exact List.mem_cons_self
    · exact .inr ⟨room, List.mem_cons_of_mem _ hmem⟩

/-- No wakeup is spurious and none is lost. After any events, of any number of registrants and
committers and in any order, for every latch that was registered: it is open only if one of the
objects it was registered for has been written after the start it was registered with; and once its
registration has gone through and is kept, and no commit is still to be announced, it is open if there
is such a write. -/
theorem wakes_for_writes (version : Version) (events : List Event)
    (room : version.toNat + (run events (ofVersion version)).heap.head.depth < 2 ^ 64) :
    let t := run events (ofVersion version)
    ∀ latch q, t.registrants.find? latch = some q →
      (∃ room, Event.register latch q.handles q.reg.start room ∈ events) ∧
      (t.listeners.latches.isOpen latch = true →
        ∃ h ∈ q.handles, ∃ v, t.heap.head.versionOf h = some v ∧ q.reg.start < v) ∧
      (q.stage = .registered → t.unannounced = [] →
        (∃ h ∈ q.handles, ∃ v, t.heap.head.versionOf h = some v ∧ q.reg.start < v) →
        t.listeners.latches.isOpen latch = true) := by
  intro t latch q hfound
  have hsound : t.Sound := (sound_ofVersion version).run events room
  have hreg : t.registered latch q.reg := ⟨q, hfound, rfl⟩
  have hq := hsound.sound latch q hfound
  have hrequested := (requested_run events (ofVersion version) hfound).resolve_left
    fun ⟨before, hbefore, _⟩ => by cases hbefore
  refine ⟨hrequested, fun hopen => ?_, fun hstage hannounced hwritten => ?_⟩
  · obtain ⟨h, hmem, hlt⟩ := hsound.serves.overtaken latch q.reg hreg hopen
    exact ⟨h, List.mem_append_left _ hmem, Snapshot.lt_written_iff.mp hlt⟩
  · obtain ⟨h, hmem, hlt⟩ := hwritten
    by_contra hclosed
    have hclosed' : t.listeners.latches.isOpen latch = false := by simpa using hclosed
    have hahead : q.ahead = [] := (hq.settled hstage).resolve_left hclosed
    rw [Registrant.handles, hahead, List.append_nil] at hmem
    have hpending := hsound.serves.pending_of_closed hreg (hq.kept (by rw [hstage]; nofun)) hclosed'
      (Snapshot.mem_chain_self _) hmem (Snapshot.lt_written_iff.mpr hlt)
    rw [hannounced] at hpending
    cases hpending

end Traffic

end

namespace Traffic

/-- A commit between looking an object up and filing the latch, announced before the latch is filed. -/
def sampleEvents : List Event :=
  [.commit { writes := [Heap.pendingCounter 1 10] }, .announce ⟨1⟩ 1,
    .register 0 [⟨1⟩] 1 (by decide), .advance 0, .advance 0,
    .commit { writes := [Heap.pendingCounter 1 11] }, .announce ⟨1⟩ 2,
    .advance 0, .advance 0, .advance 0]

/-- The commit is not missed, though the version that was looked up is the old one. -/
theorem wakes_for_writes_sample :
    (0 : Version).toNat + (run sampleEvents (ofVersion 0)).heap.head.depth < 2 ^ 64 ∧
    (run sampleEvents (ofVersion 0)).listeners.latches.isOpen 0 = true := by
  have room : (0 : Version).toNat + (run sampleEvents (ofVersion 0)).heap.head.depth < 2 ^ 64 := by
    decide +kernel
  have hregistered : ((run sampleEvents (ofVersion 0)).registrants.find? 0).map
      (fun q => (q.stage, q.handles, q.reg.start)) = some (.registered, [⟨1⟩], 1) := by
    decide +kernel
  obtain ⟨q, hfound, hq⟩ := Option.map_eq_some_iff.mp hregistered
  simp only [Prod.mk.injEq] at hq
  obtain ⟨hstage, hhandles, hstart⟩ := hq
  obtain ⟨-, -, hopened⟩ := wakes_for_writes 0 sampleEvents room 0 q hfound
  refine ⟨room, hopened hstage (by decide +kernel) ⟨⟨1⟩, ?_, 2, ?_, ?_⟩⟩
  · rw [hhandles]
    exact List.mem_singleton_self _
  · decide +kernel
  · rw [hstart]
    decide

end Traffic

end TransactionalHeap
