import TransactionalHeap.Object.Stock
import TransactionalHeap.Proofs.Engine.SerialReplay

/-!
# What a commit replaces

An object that was loaded is written only over the record it was loaded from. An attached object is
new to the snapshot of its transaction, and that is all that is checked: somebody else may have
committed under the same handle since, and then the attached object takes the place of theirs. No
record of the head is replaced in any other way (`Session.replaces_loaded_or_unseen`).
-/
namespace TransactionalHeap

section

variable [Transactables]

/-! ## Where records come from -/

namespace Committed

variable {head : Snapshot} {log : List Committed}

theorem Follow.drop (follow : Follow head log) (n : Nat) :
    Follow (head.extendAll ((log.take n).map writes)) (log.drop n) := by
  induction n generalizing head log with
  | zero => exact follow
  | succ n ih =>
    cases log with
    | nil => trivial
    | cons T later => exact ih follow.2

/-- The commits after a snapshot of the past lead from it to the head. -/
theorem Follow.since {first : Version} (follow : Follow (.genesis first) log) {past : Snapshot}
    (mem : past ∈ ((Snapshot.genesis first).extendAll (log.map writes)).chain) :
    Follow past (log.drop past.depth) ∧ (Snapshot.genesis first).extendAll (log.map writes) =
      past.extendAll ((log.drop past.depth).map writes) := by
  obtain ⟨n, hpast⟩ : ∃ n, past = (Snapshot.genesis first).extendAll ((log.take n).map writes) := by
    rcases Snapshot.mem_chain_extendAll_cases mem with hfirst | ⟨n, hlater⟩
    · exact ⟨0, List.mem_singleton.mp hfirst⟩
    · exact ⟨n, List.map_take ▸ hlater⟩
  have hdrop : log.drop past.depth = log.drop n := by
    rw [hpast, Snapshot.depth_extendAll, List.length_map, List.length_take]
    change log.drop (0 + min n log.length) = log.drop n
    rcases Nat.le_total n log.length with hle | hle
    · rw [Nat.min_eq_left hle, Nat.zero_add]
    · rw [Nat.min_eq_right hle, Nat.zero_add, List.drop_length, List.drop_of_length_le hle]
  rw [hdrop, hpast, ← Snapshot.extendAll_append, ← List.map_append, List.take_append_drop]
  exact ⟨follow.drop n, rfl⟩

end Committed

/-! ## Why an object is written -/

/-- What is to be written was attached where the snapshot has nothing, or it was loaded from the
record that the snapshot has and opened for a change. -/
theorem Entry.Sound.changed_cases {good : Object → Prop} {s : Snapshot} {h : Handle} {e : Entry}
    (sound : e.Sound good s h) {o : Object} (changed : e.changed = some o) :
    (e.status = .fresh ∧ s.read h = none) ∨
    (e.status = .dirty ∧ ∃ r, e.origin = some r ∧ s.read h = some r ∧ r.type = o.type) := by
  obtain ⟨-, hbuffered, -⟩ := sound.of_changed changed
  cases sound with
  | fresh o' absent isGood => exact .inl ⟨rfl, absent⟩
  | loaded r object stored yielded => cases changed
  | changed r o' stored sameType isGood =>
    obtain rfl : o' = o := Option.some.inj hbuffered
    exact .inr ⟨rfl, r, rfl, stored, sameType.symm⟩

/-- Why a transaction may write an object over `head`, where `since` are the commits that came after
its snapshot. -/
inductive Transaction.MayWrite (t : Transaction) (head : Snapshot) (since : List Committed)
    (w : PendingRecord) : Prop
  /-- It attached the object where its snapshot has nothing. What the head has there was written
  since. -/
  | attached {e : Entry} (entry : t.entries.find? w.handle = some e) (fresh : e.status = .fresh)
      (unseen : t.snapshot.read w.handle = none)
      (recent : ∀ r, head.read w.handle = some r →
        ∃ T ∈ since, ∃ w' ∈ T.writes, w'.handle = w.handle ∧ r = w'.stamp T.version)
  /-- It loaded the very record that the head has there. -/
  | loaded {e : Entry} {r : Record} (entry : t.entries.find? w.handle = some e)
      (dirty : e.status = .dirty) (origin : e.origin = some r)
      (current : head.read w.handle = some r) (sameType : w.type = r.type)

namespace Session

variable {good : Object → Prop} {s s' : Session}

/-- What a commit writes over the head of a sound session, whose commits since the first snapshot are
given. -/
theorem Effect.mayWrite {a : Action} {T : Committed} (effect : Effect s a (some T) s')
    (sound : s.core.Sound good) {first : Version} {log : List Committed}
    (follow : Committed.Follow (.genesis first) log)
    (head : s.core.head = (Snapshot.genesis first).extendAll (log.map Committed.writes))
    (room : log.length < 2 ^ 64) :
    ∃ id t, a = .publish id ∧ s.engine.held.find? id = some t ∧
      ∀ w ∈ T.writes, t.MayWrite s.core.head (log.drop t.snapshot.depth) w := by
  cases effect with
  | @published id t guard locks p ready something locked unconflicted which =>
    have hbelongs := sound.held id t ready.held
    have hpast := hbelongs.past
    rw [head] at hpast
    obtain ⟨hfollow, hsince⟩ := follow.since hpast
    have hroom : s.core.head.depth < 2 ^ 64 := by
      rw [head, Snapshot.depth_extendAll, List.length_map]
      exact Nat.lt_of_le_of_lt (Nat.le_of_eq (Nat.zero_add _)) room
    have hbuilt := (sound.built.of_mem_chain hbelongs.past).1
    refine ⟨id, t, rfl, ready.held, fun w hw => ?_⟩
    obtain ⟨o, ho, hwrite⟩ := Transaction.mem_pendingWrites_iff.mp hw
    rw [Transaction.find?_changed] at ho
    obtain ⟨e, he, hchanged⟩ := Option.bind_eq_some_iff.mp ho
    rcases (hbelongs.sound.entries w.handle e he).changed_cases hchanged with
      ⟨fresh, unseen⟩ | ⟨dirty, r, origin, stored, sameType⟩
    · refine .attached he fresh unseen fun r hr => ?_
      rw [head, hsince] at hr
      refine (hfollow.provenance hbuilt.weaken hr).resolve_left fun hold => ?_
      rw [unseen] at hold
      cases hold
    · -- the conflict check compares versions, and these identify records
      have hthen : t.snapshot.versionOf w.handle = some r.version := by
        rw [hbuilt.versionOf_eq_read, stored]
        rfl
      have hnow := Heap.firstConflict_eq_none_iff.mp unconflicted w hw r.version hthen
      refine .loaded he dirty origin ?_ ?_
      · rw [← sound.built.read_eq_of_versionOf_eq hroom hbelongs.past hthen hnow, stored]
      · rw [hwrite, sameType]
        rfl

/-- An action keeps every record of the head, or it publishes a commit that writes another one in its
place. -/
theorem Effect.keeps_or_replaces {a : Action} {log : Option Committed} (effect : Effect s a log s')
    (sound : s.core.Sound good) {h : Handle} {r : Record}
    (stored : s.core.head.read h = some r) :
    s'.core.head.read h = some r ∨
    ∃ T, log = some T ∧ ∃ w ∈ T.writes, w.handle = h ∧
      s'.core.head.read h = some (w.stamp T.version) := by
  rcases (effect.moves sound).published_fits sound with ⟨-, hstill⟩ | ⟨T, hlog, fits, hextended⟩
  · rw [hstill]
    exact .inl stored
  · rw [hextended, Snapshot.read_extend sound.built.ordered]
    cases hlast : lastWrite h T.writes with
    | none => exact .inl stored
    | some w =>
      obtain ⟨hmem, hhandle⟩ := lastWrite_mem hlast
      refine .inr ⟨T, hlog, w, hmem, hhandle, ?_⟩
      rw [fits.version]
      rfl

/-- In every run, what a commit writes over a record of the head was loaded from that very record and
keeps its type, or it was attached before that record had been written. Nothing else replaces
records. -/
theorem replaces_loaded_or_unseen (config : Config) (actions : List Action)
    (room : (commits actions (ofConfig config)).length < 2 ^ 64) :
    let s := (ofConfig config).run actions
    let head := s.engine.store.heap.head
    (∀ id T, s.published? (.publish id) = some T → ∃ t, s.engine.held.find? id = some t ∧
      ∀ w ∈ T.writes,
        t.MayWrite head ((commits actions (ofConfig config)).drop t.snapshot.depth) w) ∧
    ∀ a h r, head.read h = some r → (s.step a).engine.store.heap.head.read h = some r ∨
      ∃ id T, a = .publish id ∧ s.published? a = some T ∧ ∃ w ∈ T.writes, w.handle = h ∧
        (s.step a).engine.store.heap.head.read h = some (w.stamp T.version) := by
  intro s head
  have hsound : s.core.Sound fun _ => True := sound_reached config actions
  have within : ∀ a ∈ actions, a.Within fun _ => True := fun a _ => a.within_any
  obtain ⟨hfollow, hhead⟩ := commits_follow within (sound_ofConfig config)
  have hmayWrite : ∀ a T, s.published? a = some T → ∃ id t, a = .publish id ∧
      s.engine.held.find? id = some t ∧ ∀ w ∈ T.writes,
        t.MayWrite head ((commits actions (ofConfig config)).drop t.snapshot.depth) w := by
    intro a T hT
    have heffect := effect hsound a
    rw [hT] at heffect
    exact heffect.mayWrite hsound hfollow hhead room
  refine ⟨fun id T hT => ?_, fun a h r stored => ?_⟩
  · obtain ⟨id', t, ha, held, hwrites⟩ := hmayWrite _ T hT
    cases ha
    exact ⟨t, held, hwrites⟩
  · rcases (effect hsound a).keeps_or_replaces hsound stored with hkept | ⟨T, hT, hwrite⟩
    · exact .inl hkept
    · obtain ⟨id, -, ha, -⟩ := hmayWrite a T hT
      exact .inr ⟨id, T, ha, hT, hwrite⟩

end Session

end

namespace Session

/-- Two transactions attach an object each under one handle from outside, and one of them has
committed. -/
def attachedTwice : List Action :=
  [.begin, .begin, .perform 1 (.attachTo ⟨9⟩ (.counter 1)),
    .perform 2 (.attachTo ⟨9⟩ (.account "ann" 2)), .publish 1, .conclude 1]

/-- The other one writes over a record that it has never seen. -/
theorem replaces_loaded_or_unseen_sample :
    let s := (ofConfig {}).run attachedTwice
    ∃ T t w e, s.published? (.publish 2) = some T ∧ s.engine.held.find? 2 = some t ∧ w ∈ T.writes ∧
      t.entries.find? w.handle = some e ∧ e.status = .fresh ∧ t.snapshot.read w.handle = none ∧
      s.engine.store.heap.head.read w.handle = some ⟨⟨9⟩, 1, .counter, ⟨.counter⟩, [.int 1]⟩ ∧
      (s.step (.publish 2)).engine.store.heap.head.read w.handle = some (w.stamp T.version) := by
  intro s
  obtain ⟨hwrites, hreplaced⟩ := replaces_loaded_or_unseen {} attachedTwice (by decide +kernel)
  obtain ⟨T, hT⟩ := Option.isSome_iff_exists.mp
    (by decide +kernel : (s.published? (.publish 2)).isSome = true)
  have hone : s.engine.store.heap.head.read ⟨9⟩ =
      some ⟨⟨9⟩, 1, .counter, ⟨.counter⟩, [.int 1]⟩ := by decide +kernel
  have hgone : (s.step (.publish 2)).engine.store.heap.head.read ⟨9⟩ ≠
      some ⟨⟨9⟩, 1, .counter, ⟨.counter⟩, [.int 1]⟩ := by decide +kernel
  obtain ⟨t, held, hmayWrite⟩ := hwrites 2 T hT
  rcases hreplaced (.publish 2) ⟨9⟩ _ hone with hkept | ⟨id, T', -, hT', w, hw, hhandle, hnow⟩
  · exact absurd hkept hgone
  · obtain rfl : T = T' := Option.some.inj (hT.symm.trans hT')
    have hfresh : (s.engine.held.find? 2).map (fun t => (t.entries.find? ⟨9⟩).map (·.status)) =
        some (some .fresh) := by decide +kernel
    rw [held] at hfresh
    cases hmayWrite w hw with
    | attached entry fresh unseen recent =>
      exact ⟨T, t, w, _, hT, held, hw, entry, fresh, unseen, hhandle ▸ hone, hhandle ▸ hnow⟩
    | loaded entry dirty origin current sameType =>
      rw [hhandle] at entry
      simp [entry, dirty] at hfresh

/-- A handle under which a transaction has attached an object need not be new to the head that its
commit extends. -/
theorem attached_over_committed :
    ¬ ∀ (actions : List Action) (id : TxnId) (T : Committed) (t : Transaction),
      ((ofConfig {}).run actions).published? (.publish id) = some T →
      ((ofConfig {}).run actions).engine.held.find? id = some t →
      ∀ w ∈ T.writes, ∀ e, t.entries.find? w.handle = some e → e.status = .fresh →
        ((ofConfig {}).run actions).engine.store.heap.head.read w.handle = none := by
  intro hnew
  have hpublished : (((ofConfig {}).run attachedTwice).published? (.publish 2)).map (·.writes) =
      some [.ofObject ⟨9⟩ (.account "ann" 2)] := by decide +kernel
  have hfresh : (((ofConfig {}).run attachedTwice).engine.held.find? 2).map
      (fun t => (t.entries.find? ⟨9⟩).map (·.status)) = some (some .fresh) := by decide +kernel
  have hold : (((ofConfig {}).run attachedTwice).engine.store.heap.head.read ⟨9⟩).isSome = true := by
    decide +kernel
  obtain ⟨T, hT, hwrites⟩ := Option.map_eq_some_iff.mp hpublished
  obtain ⟨t, held, hentry⟩ := Option.map_eq_some_iff.mp hfresh
  obtain ⟨e, he, hstatus⟩ := Option.map_eq_some_iff.mp hentry
  have hnone := hnew attachedTwice 2 T t hT held (.ofObject ⟨9⟩ (.account "ann" 2))
    (by rw [hwrites]; exact List.mem_singleton_self _) e he hstatus
  rw [show (PendingRecord.ofObject ⟨9⟩ (.account "ann" 2)).handle = ⟨9⟩ from rfl] at hnone
  rw [hnone] at hold
  cases hold

end Session

end TransactionalHeap
