import TransactionalHeap.Object.Stock
import TransactionalHeap.Proofs.Engine.Waiting

/-!
# What a retry waits for

A retry waits for a commit that writes something the transaction has read, and for nothing else. If
there was one since the transaction started, the latch is open from the beginning; otherwise it is
opened with the first one to come. So whoever comes back from a retry has something new to read
(`Session.retry_waits_for_write`).
-/
namespace TransactionalHeap

section

variable [Transactables]

namespace Committed

variable {head : Snapshot} {log : List Committed} {T : Committed}

/-- The commit publishes one of the objects. -/
def WritesOneOf (T : Committed) (handles : List Handle) : Prop := ∃ w ∈ T.writes, w.handle ∈ handles

/-- Every later commit has left the versions of what it wrote in the chain, and they are new. -/
theorem Follow.written {ok : PendingRecord → Prop} (follow : Follow head log) (built : head.Built ok)
    (room : head.base.toNat + head.depth + log.length < 2 ^ 64) (hT : T ∈ log) {w : PendingRecord}
    (hw : w ∈ T.writes) : head.version < T.version ∧
      ∃ past ∈ (head.extendAll (log.map writes)).chain, past.written w.handle = T.version := by
  induction log generalizing head ok with
  | nil => cases hT
  | cons U later ih =>
    obtain ⟨fits, hlater⟩ := follow
    rw [List.length_cons] at room
    have hnew : head.version < (head.extend U.writes).version := by
      have hversion := built.toNat_version (by omega)
      rw [Snapshot.version_extend, UInt64.lt_iff_toNat_lt, Version.toNat_next (by omega)]
      exact Nat.lt_succ_self _
    rcases List.mem_cons.mp hT with rfl | hT
    · rw [fits.version]
      refine ⟨hnew, head.extend T.writes, ?_, ?_⟩
      · exact Snapshot.mem_chain_extendAll (s := head.extend T.writes) _ (Snapshot.mem_chain_self _)
      · rw [Snapshot.written_extend built.ordered, if_pos ⟨w, hw, rfl⟩]
    · have hroom : (head.extend U.writes).base.toNat + (head.extend U.writes).depth +
          later.length < 2 ^ 64 := by
        rw [Snapshot.base_extend, Snapshot.depth_extend]
        omega
      obtain ⟨hlt, hpast⟩ := ih hlater (built.weaken.extend fun _ _ => trivial) hroom hT
      exact ⟨UInt64.lt_trans hnew hlt, hpast⟩

end Committed

/-- The transaction has started over on a snapshot that has something new of what it had read. -/
structure Transaction.Restarts (old : Transaction) (head : Snapshot) (t : Transaction) : Prop where
  active : t.status = .active
  entries : t.entries = ∅
  frames : t.frames = []
  snapshot : t.snapshot = head
  later : old.startVersion < t.startVersion
  newer : ∃ h ∈ old.readSet, ∃ before now, old.snapshot.versionOf h = some before ∧
    t.snapshot.versionOf h = some now ∧ before < now

namespace Session

variable {good : Object → Prop} {s s' : Session} {id : TxnId} {t : Transaction} {p : Parked}

/-- The latch that is waited with is open. -/
def opened (s : Session) (p : Parked) : Bool := s.engine.store.listeners.latches.isOpen p.latch

/-- The commit is over, its second half included. -/
def HasConcluded (s : Session) (T : Committed) : Prop :=
  ∀ id p, s.calls.find? id = some (.committing p) → p.version ≠ T.version

/-- How a transaction that has read something comes to wait. -/
structure HasParked (s s' : Session) (id : TxnId) (t : Transaction) (p : Parked) : Prop where
  run : Engine.park id s.engine = .ok p s'.engine
  calling : s'.calls.find? id = some (.parked p)
  head : s'.engine.store.heap.head = s.engine.store.heap.head
  start : p.start = t.startVersion
  sub : ∀ h ∈ p.filed, h ∈ t.readSet
  all : s'.opened p = false → p.filed = t.readSet
  opened_iff : s'.opened p = true ↔ s.engine.store.heap.head.Overtakes t.readSet t.startVersion

theorem Attended.hasParked (attended : s.Attended) (sound : s.core.Sound good)
    (held : s.engine.held.find? id = some t) (active : t.status = .active)
    (free : s.calls.find? id = none) (reads : t.readSet ≠ [])
    (room : s.engine.store.heap.head.base.toNat + s.engine.store.heap.head.depth + 1 < 2 ^ 64) :
    ∃ p, s.HasParked (s.step (.park id)) id t p := by
  obtain ⟨filed, listeners, r, hregister, -, hregistered⟩ :=
    attended.registers sound held reads room
  have hlisten := Store.listen_eq s.engine.store t.readSet t.startVersion
  have hpark := Engine.park_of_active held active
  rw [if_neg (by simpa using reads), hlisten, hregister] at hpark
  rw [step, unlessCalling_of_free (SortedMap.contains_eq_false_iff.mpr free), hpark]
  exact ⟨_, hpark, SortedMap.find?_insert_self _ _ _, rfl, rfl, hregistered.sub, hregistered.all,
    hregistered.isOpen_iff⟩

/-- With nothing read there is nothing to wait for. -/
theorem park_of_unread (held : s.engine.held.find? id = some t) (active : t.status = .active)
    (unread : t.readSet = []) :
    Engine.park id s.engine = .error (.noProgress (.nothingRead id)) s.engine := by
  have hpark := Engine.park_of_active held active
  rw [unread] at hpark
  exact hpark

/-! ## When the latch is open -/

namespace HasParked

variable {later : List Action}

/-- The latch is not opened unless something that was read is written anew. -/
theorem overtaken (parked : s.HasParked s' id t p) {now : Session} (attended : now.Attended)
    (waits : now.Waits id p) (opened : now.opened p = true) :
    now.engine.store.heap.head.Overtakes t.readSet t.startVersion := by
  obtain ⟨r, hstands, hr⟩ := attended.registered waits
  obtain ⟨h, hmem, hlt⟩ := attended.serves.overtaken p.latch r hr opened
  rw [hstands.handles] at hmem
  rw [hstands.start, parked.start] at hlt
  exact ⟨h, parked.sub h hmem, hlt⟩

theorem stays_closed (parked : s.HasParked s' id t p) (within : ∀ a ∈ later, a.Within good)
    (sound : s'.core.Sound good) (attended : (s'.run later).Attended)
    (waits : (s'.run later).Waits id p) (closed : s'.opened p = false)
    (others : ∀ T ∈ commits later s', ¬ T.WritesOneOf t.readSet) :
    (s'.run later).opened p = false := by
  rw [← Bool.not_eq_true]
  intro hopened
  obtain ⟨h, hmem, hlt⟩ := parked.overtaken attended waits hopened
  obtain ⟨v, hversion, hlt⟩ := Snapshot.lt_written_iff.mp hlt
  obtain ⟨hfollow, hhead⟩ := commits_follow within sound
  have hnow : (s'.run later).core.head.versionOf h = some v := hversion
  rw [(sound_run within sound).built.versionOf_eq_read] at hnow
  obtain ⟨r, hread, rfl⟩ := Option.map_eq_some_iff.mp hnow
  rw [hhead] at hread
  rcases hfollow.provenance sound.built.weaken hread with hold | ⟨T, hT, w, hw, rfl, -⟩
  · -- it was there when the latch was filed
    have hbefore : s'.core.head.versionOf h = some r.version := by
      rw [sound.built.versionOf_eq_read, hold]
      rfl
    have hovertaken : s.engine.store.heap.head.Overtakes t.readSet t.startVersion := by
      rw [← parked.head]
      exact ⟨h, hmem, Snapshot.lt_written_iff.mpr ⟨_, hbefore, hlt⟩⟩
    rw [parked.opened_iff.mpr hovertaken] at closed
    cases closed
  · exact others T hT ⟨w, hw, hmem⟩

theorem opens (parked : s.HasParked s' id t p) (within : ∀ a ∈ later, a.Within good)
    (sound : s'.core.Sound good) (past : t.snapshot ∈ s'.engine.store.heap.head.chain)
    (room : (s'.run later).engine.store.heap.head.base.toNat +
      (s'.run later).engine.store.heap.head.depth < 2 ^ 64)
    (attended : (s'.run later).Attended)
    (leads : s'.engine.store.listeners.Leads (s'.run later).engine.store.listeners)
    (waits : (s'.run later).Waits id p) {T : Committed} (hT : T ∈ commits later s')
    (wrote : T.WritesOneOf t.readSet) (concluded : (s'.run later).HasConcluded T) :
    (s'.run later).opened p = true := by
  by_contra hnot
  have hclosed : (s'.run later).opened p = false := by simpa using hnot
  have hclosed' : s'.opened p = false := by
    rw [← Bool.not_eq_true]
    exact fun hopened => hnot (leads.opened p.latch hopened)
  obtain ⟨w, hw, hmem⟩ := wrote
  obtain ⟨r, hstands, hr⟩ := attended.registered waits
  obtain ⟨hfollow, hhead⟩ := commits_follow within sound
  obtain ⟨hbase, hdepth⟩ := extent_run _ within sound
  have hbuilt : s'.engine.store.heap.head.Built _ := sound.built
  rw [hbase, hdepth] at room
  have hroom : s'.engine.store.heap.head.base.toNat + s'.engine.store.heap.head.depth < 2 ^ 64 := by
    omega
  obtain ⟨hnew, since, hsince, hwritten⟩ := hfollow.written hbuilt (by
    rw [← Nat.add_assoc] at room
    exact room) hT hw
  have hlisted : w.handle ∈ r.handles := by
    rw [hstands.handles, parked.all hclosed']
    exact hmem
  have hnewer : r.start < since.written w.handle := by
    rw [hstands.start, parked.start, hwritten]
    refine UInt64.lt_of_le_of_lt ?_ hnew
    have hle := hbuilt.toNat_past_le hroom past
    rw [← hbuilt.toNat_version hroom] at hle
    exact UInt64.le_iff_toNat_le.mpr hle
  rw [← hhead] at hsince
  obtain ⟨other, q, hq, -, hversion⟩ :=
    attended.serves.pending_of_closed hr hstands.kept hclosed hsince hlisted hnewer
  exact concluded other q hq (hversion.symm.trans hwritten)

/-- Whoever comes back through the open latch has something new to read. -/
theorem restarts (parked : s.HasParked s' id t p) {now : Session} (sound : now.core.Sound good)
    (attended : now.Attended) (room : now.engine.store.heap.head.base.toNat +
      now.engine.store.heap.head.depth < 2 ^ 64) (tSound : t.Sound good)
    (past : t.snapshot ∈ now.engine.store.heap.head.chain)
    (suspended : now.calls.find? id = some (.suspended p)) (opened : now.opened p = true) :
    Engine.wake id p now.engine = .ok () (now.step (.wake id)).engine ∧
    (now.step (.wake id)).calls.find? id = none ∧
    (now.step (.wake id)).engine.store.heap = now.engine.store.heap ∧
    ∃ t', (now.step (.wake id)).engine.held.find? id = some t' ∧
      t.Restarts now.engine.store.heap.head t' := by
  obtain ⟨u, hheld, hcalls⟩ := sound.calls id _ suspended
  have hheld' : now.engine.held.find? id = some u := hheld
  have hbuilt : now.engine.store.heap.head.Built _ := sound.built
  have hrun := Engine.wake_eq hheld' p
  have hstep : now.step (.wake id) = ⟨(Engine.wake id p).after now.engine, now.calls.erase id⟩ := by
    simp only [step, suspended]
  obtain ⟨entries, frames⟩ := hcalls.empty p rfl
  obtain ⟨h, hmem, hlt⟩ := parked.overtaken attended (.inr suspended) opened
  obtain ⟨v, hversion, hv⟩ := Snapshot.lt_written_iff.mp hlt
  obtain ⟨hpastBuilt, hpastBase, hpastDepth⟩ := hbuilt.of_mem_chain past
  obtain ⟨r, hread⟩ := tSound.stored_of_mem_readSet hmem
  have hbefore : t.snapshot.versionOf h = some r.version := by
    rw [hpastBuilt.versionOf_eq_read, hread]
    rfl
  have hold : r.version ≤ t.startVersion := by
    have hle := hpastBuilt.written_le (by rw [hpastBase]; omega) h
    rwa [Snapshot.written, hbefore, Option.getD_some] at hle
  rw [hstep, Step.after_of_ok hrun]
  refine ⟨hrun, SortedMap.find?_erase_self _ _, rfl, _, SortedMap.find?_insert_self _ _ _,
    hcalls.active, entries, frames, rfl, ?_, h, hmem, r.version, v, hbefore, hversion, ?_⟩
  · exact UInt64.lt_of_lt_of_le hlt (hbuilt.written_le room h)
  · exact UInt64.lt_of_le_of_lt hold hv

end HasParked

/-! ## Retries in a run -/

/-- Versions only go up, so a run that has room at its end had it from its beginning. -/
theorem room_of_run {s : Session} (actions : List Action) (within : ∀ a ∈ actions, a.Within good)
    (sound : s.core.Sound good) (room : (s.run actions).engine.store.heap.head.base.toNat +
      (s.run actions).engine.store.heap.head.depth + 1 < 2 ^ 64) :
    s.engine.store.heap.head.base.toNat + s.engine.store.heap.head.depth + 1 < 2 ^ 64 := by
  obtain ⟨hbase, hdepth⟩ := extent_run _ within sound
  rw [hbase, hdepth] at room
  omega

/-- A retry waits for a write of something that was read, and for nothing else.

With nothing read it is refused, and nothing changes. Otherwise it goes through. The latch is open at
once if and only if something that was read has a newer version already. While no commit writes any of
it, a closed latch stays closed, and once a commit that does is over the latch is open; it stays so.
Whoever comes back through the open latch starts over on the newest snapshot, which is newer than the
one before and has a newer version of something that was read there. -/
theorem retry_waits_for_write (config : Config) (before later : List Action)
    (held : ((ofConfig config).run before).engine.held.find? id = some t)
    (active : t.status = .active) (free : ((ofConfig config).run before).calls.find? id = none)
    (room : config.initialVersion.toNat +
      (commits (before ++ .park id :: later) (ofConfig config)).length + 1 < 2 ^ 64) :
    let s := (ofConfig config).run before
    let parked := s.step (.park id)
    let now := parked.run later
    (t.readSet = [] → Engine.park id s.engine = .error (.noProgress (.nothingRead id)) s.engine) ∧
    (t.readSet ≠ [] → ∃ p, Engine.park id s.engine = .ok p parked.engine ∧
      parked.calls.find? id = some (.parked p) ∧
      (parked.opened p = true ↔ ∃ h ∈ t.readSet, ∃ v,
        s.engine.store.heap.head.versionOf h = some v ∧ t.startVersion < v) ∧
      (now.Waits id p →
        (parked.opened p = true → now.opened p = true) ∧
        (parked.opened p = false → (∀ T ∈ commits later parked, ¬ T.WritesOneOf t.readSet) →
          now.opened p = false) ∧
        (∀ T ∈ commits later parked, T.WritesOneOf t.readSet → now.HasConcluded T →
          now.opened p = true)) ∧
      (now.calls.find? id = some (.parked p) →
        Engine.suspend id now.engine = .ok () (now.step (.suspend id)).engine ∧
        (now.step (.suspend id)).calls.find? id = some (.suspended p)) ∧
      (now.calls.find? id = some (.suspended p) → now.opened p = true →
        Engine.wake id p now.engine = .ok () (now.step (.wake id)).engine ∧
        (now.step (.wake id)).calls.find? id = none ∧
        (now.step (.wake id)).engine.store.heap = now.engine.store.heap ∧
        ∃ t', (now.step (.wake id)).engine.held.find? id = some t' ∧
          t.Restarts now.engine.store.heap.head t')) := by
  intro s parked now
  have within : ∀ {actions : List Action}, ∀ a ∈ actions, a.Within fun _ => True :=
    fun a _ => a.within_any
  have hsound : s.core.Sound fun _ => True := sound_reached config before
  have hparkedSound : parked.core.Sound fun _ => True := sound_step (Action.within_any _) hsound
  have hnowSound : now.core.Sound fun _ => True := sound_run within hparkedSound
  have hnow : now = (ofConfig config).run (before ++ .park id :: later) := by
    simp only [now, parked, s, run, List.foldl_append, List.foldl_cons]
  have hroom : now.engine.store.heap.head.base.toNat + now.engine.store.heap.head.depth + 1 <
      2 ^ 64 := by
    obtain ⟨hbase, hdepth⟩ := extent_run (before ++ .park id :: later) within
      (sound_ofConfig config)
    rw [hnow, hbase, hdepth]
    simpa [ofConfig, Engine.ofConfig, Store.ofConfig, Heap.ofVersion, Snapshot.base,
      Snapshot.depth] using room
  have hparkedRoom := room_of_run later within hparkedSound hroom
  have hsRoom := room_of_run [.park id] within hsound hparkedRoom
  obtain ⟨hattended, -⟩ := attended_run before within (sound_ofConfig config)
    (attended_ofConfig config) hsRoom
  obtain ⟨hparkedAttended, -⟩ := attended_run [.park id] within hsound hattended hparkedRoom
  obtain ⟨hnowAttended, hleads⟩ := attended_run later within hparkedSound hparkedAttended hroom
  refine ⟨fun unread => park_of_unread held active unread, fun reads => ?_⟩
  obtain ⟨p, hparked⟩ := hattended.hasParked hsound held active free reads hsRoom
  have hpast : t.snapshot ∈ parked.engine.store.heap.head.chain := by
    rw [hparked.head]
    exact (hsound.held id t held).past
  have hpastNow : t.snapshot ∈ now.engine.store.heap.head.chain := by
    have hhead : now.core.head =
        parked.core.head.extendAll ((commits later parked).map Committed.writes) :=
      (commits_follow within hparkedSound).2
    rw [show now.engine.store.heap.head = _ from hhead]
    exact Snapshot.mem_chain_extendAll _ hpast
  refine ⟨p, hparked.run, hparked.calling, ?_, fun hwaits => ⟨hleads.opened p.latch, ?_, ?_⟩,
    fun hcall => ?_, fun hcall hopened => ?_⟩
  · refine hparked.opened_iff.trans ?_
    simp only [Snapshot.Overtakes, Snapshot.lt_written_iff]
    rfl
  · exact hparked.stays_closed within hparkedSound hnowAttended hwaits
  · exact fun T hT => hparked.opens within hparkedSound hpast (Nat.lt_of_succ_lt hroom) hnowAttended
      hleads hwaits hT
  · obtain ⟨u, hu, -⟩ := hnowSound.calls id _ hcall
    have hrun := Engine.suspend_eq hu
    have hstep : now.step (.suspend id) =
        ⟨(Engine.suspend id).after now.engine, now.calls.insert id (.suspended p)⟩ := by
      simp only [step, hcall]
    rw [hstep, Step.after_of_ok hrun]
    exact ⟨hrun, SortedMap.find?_insert_self _ _ _⟩
  · exact hparked.restarts hnowSound hnowAttended (Nat.lt_of_succ_lt hroom)
      (hsound.held id t held).sound hpastNow hcall hopened

end Session

end

namespace Session

/-- Somebody has read a counter, and somebody else is about to change it. -/
def beforeChange : List Action :=
  [.begin, .attach 1 (.counter 10), .publish 1, .conclude 1,
    .begin, .perform 2 (.read .counter ⟨1⟩), .begin, .perform 3 (addTo 1 5)]

/-- The change is committed while the reader waits. -/
def changeMeanwhile : List Action := [.suspend 2, .publish 3, .conclude 3]

/-- Where a transaction is on its way through a retry. -/
def InCall.wait : InCall → Option (Bool × Parked)
  | .committing _ => none
  | .parked p => some (false, p)
  | .suspended p => some (true, p)

/-- The reader waits for the change and no longer, and starts over on it. -/
theorem retry_waits_for_write_sample :
    let s := (ofConfig {}).run beforeChange
    let parked := s.step (.park 2)
    let now := parked.run changeMeanwhile
    ∃ t p t', s.engine.held.find? 2 = some t ∧ t.readSet = [⟨1⟩] ∧
      parked.opened p = false ∧ now.opened p = true ∧
      (now.step (.wake 2)).engine.held.find? 2 = some t' ∧
      t.Restarts now.engine.store.heap.head t' := by
  intro s parked now
  have hreader : (s.engine.held.find? 2).map (fun t => (t.status, t.readSet, t.startVersion)) =
      some (.active, [⟨1⟩], 1) := by decide +kernel
  obtain ⟨t, held, ht⟩ := Option.map_eq_some_iff.mp hreader
  simp only [Prod.mk.injEq] at ht
  obtain ⟨active, reads, start⟩ := ht
  obtain ⟨-, hretry⟩ := retry_waits_for_write {} beforeChange changeMeanwhile held active
    (SortedMap.contains_eq_false_iff.mp (by decide +kernel)) (by decide +kernel)
  obtain ⟨p, -, hparked, hopened, hwaits, -, hwakes⟩ := hretry (by simp [reads])
  have hp : (parked.calls.find? 2).bind InCall.wait = some (false, ⟨0, [⟨1⟩], 1⟩) := by
    decide +kernel
  obtain rfl : p = ⟨0, [⟨1⟩], 1⟩ := by
    rw [hparked] at hp
    exact congrArg Prod.snd (Option.some.inj hp)
  have hsuspended : now.calls.find? 2 = some (.suspended ⟨0, [⟨1⟩], 1⟩) := by
    have hcall : (now.calls.find? 2).bind InCall.wait = some (true, ⟨0, [⟨1⟩], 1⟩) := by
      decide +kernel
    obtain ⟨call, hfound, hwait⟩ := Option.bind_eq_some_iff.mp hcall
    cases call <;> cases hwait
    exact hfound
  obtain ⟨-, -, hopens⟩ := hwaits (.inr hsuspended)
  have hclosed : parked.opened ⟨0, [⟨1⟩], 1⟩ = false := by
    rw [← Bool.not_eq_true]
    intro hopen
    obtain ⟨h, hmem, v, hversion, hlt⟩ := hopened.mp hopen
    rw [reads, List.mem_singleton] at hmem
    have hfirst : s.engine.store.heap.head.versionOf ⟨1⟩ = some 1 := by decide +kernel
    rw [hmem, hfirst] at hversion
    cases hversion
    rw [start] at hlt
    exact absurd hlt (by decide)
  have hchange : (commits changeMeanwhile parked).map (fun T => T.writes.map (·.handle)) =
      [[⟨1⟩]] := by decide +kernel
  obtain ⟨T, hT, hwrites⟩ : ∃ T ∈ commits changeMeanwhile parked,
      T.writes.map (·.handle) = [⟨1⟩] := by
    apply List.mem_map.mp
    rw [hchange]
    exact List.mem_singleton_self _
  have hwrote : T.WritesOneOf t.readSet := by
    obtain ⟨w, hw, hhandle⟩ := List.mem_map.mp (hwrites ▸ List.mem_singleton_self _)
    exact ⟨w, hw, by rw [hhandle, reads]; exact List.mem_singleton_self _⟩
  have hconcluded : now.HasConcluded T := fun id q hq => by
    have hcalls : now.calls.values.all (fun call => (InCall.wait call).isSome) = true := by
      decide +kernel
    have := List.all_eq_true.mp hcalls _ (SortedMap.mem_values_iff.mpr ⟨id, hq⟩)
    cases this
  have hopen := hopens T hT hwrote hconcluded
  obtain ⟨-, -, -, t', ht', hrestarts⟩ := hwakes hsuspended hopen
  refine ⟨t, ⟨0, [⟨1⟩], 1⟩, t', held, reads, hclosed, hopen, ?_, ?_⟩
  · simpa only [now, parked, s] using ht'
  · simpa only [now, parked, s] using hrestarts

end Session

end TransactionalHeap
