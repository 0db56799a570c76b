import TransactionalHeap.Object.Stock
import TransactionalHeap.Proofs.Engine.Backing
import TransactionalHeap.Proofs.Object.Stock
import TransactionalHeap.Proofs.Transaction.Copying

/-!
# Copies of stored objects

The ways of getting at a committed object do not check the same. An untracked copy of an object that
the transaction has not come across asks whether it is of the type; one of an object that the
transaction has read takes its fields for whatever the caller names (`Session.copies_of_unwritten`). A
transaction that reads the object demands that its materializer leave no field over; a copy, also one of
the past, does not (`Session.reads_and_copies_agree`).
-/
namespace TransactionalHeap

section

variable [Transactables]

theorem Loaded.map_detached_inj {a b : Except Error Object} :
    a.map Loaded.detached = b.map Loaded.detached ↔ a = b := by
  cases a <;> cases b <;> simp [Except.map]

theorem Loaded.map_detached_error {x : Except Error Object} {fault : Error} :
    x.map Loaded.detached = .error fault ↔ x = .error fault := by
  cases x <;> simp [Except.map]

/-- A copy of the past is made of the record that was there. -/
theorem Store.readAt_eq {s : Store} {v : Version} {past : Snapshot} {h : Handle} {r : Record}
    (present : ¬ s.heap.version < v) (found : s.heap.snapshotAt v = .ok past)
    (stored : past.read h = some r) (type : ObjectType) :
    s.readAt type h v = (r.rebuildAs type).map some := by
  have hread : s.heap.readAt h v = .ok (some r) := by
    rw [Heap.readAt, found, ← stored]
    rfl
  simp only [readAt, if_neg present, hread]
  change (do return some (← r.rebuildAs type)) = _
  cases r.rebuildAs type <;> rfl

namespace Session

open Transaction

/-- What an unmanaged load gives of a stored object that the transaction has not written, in any run and
whatever types there are. Is the object untracked, it is rebuilt as one of the type. Is it tracked, fields
are read as those of an object of the type, whatever it is: the stored ones while it is deferred, and those
of the object that was rebuilt from them once it is materialized (while the transaction is being committed,
one of the two). So it makes a difference whether the object is tracked just where the two readings differ,
and of an object of another type only the untracked load is bound to say so. If the stored type loses
nothing and the other one only decodes, they differ for every object of another type, and only the
untracked load says so. Either way the transaction stays as it is. -/
theorem copies_of_unwritten (config : Config) (actions : List Action) {id : TxnId} {t : Transaction}
    (held : ((ofConfig config).run actions).engine.held.find? id = some t)
    (active : t.status = .active) {h : Handle} {r : Record} (stored : t.snapshot.read h = some r)
    (unwritten : h ∉ t.writeSet) (type : ObjectType) :
    let copy := (load type h .unmanaged).result t
    let untracked := (load type h .unmanaged).result (t.forget h)
    ∃ fields, r.Flattened fields ∧ (t.isMaterialized h = false → fields = r.fields) ∧
      (t.isMaterialized h = true → ((ofConfig config).run actions).core.Unpublished id →
        ∃ o, r.rebuild = .ok o ∧ fields = o.dematerialize) ∧
      copy = ((if h ∈ t.readSet then type.read fields else r.rebuildAs type).map .detached, t) ∧
      untracked = ((r.rebuildAs type).map .detached, t.forget h) ∧
      (copy.1 = untracked.1 ↔ (h ∈ t.readSet → type.read fields = r.rebuildAs type)) ∧
      (r.type ≠ type → untracked.1 = .error (.wrongType type.name r.type.name)) ∧
      (type.OnlyDecodes →
        (copy.1 = .error (.wrongType type.name r.type.name) ↔ h ∉ t.readSet ∧ r.type ≠ type)) ∧
      (r.type.Lossless → type.OnlyDecodes →
        (copy.1 = untracked.1 ↔ (h ∈ t.readSet → r.type = type))) := by
  intro copy untracked
  have sound := ((sound_reached config actions).held id t held).sound
  obtain ⟨fields, flattened, hdeferred, hmaterialized, hload⟩ :=
    sound.load_unmanaged_unwritten active unwritten stored
  have hcopy : copy = ((if h ∈ t.readSet then type.read fields else r.rebuildAs type).map .detached, t) :=
    hload type
  have huntracked : untracked = ((r.rebuildAs type).map .detached, t.forget h) :=
    load_unmanaged_of_untracked (t := t.forget h) active (find?_forget h t) stored type
  have hsame : copy.1 = untracked.1 ↔ (h ∈ t.readSet → type.read fields = r.rebuildAs type) := by
    rw [hcopy, huntracked, Loaded.map_detached_inj]
    split
    · next hread => rw [forall_prop_of_true hread]
    · next hread => simp only [hread, false_implies]
  refine ⟨fields, flattened, hdeferred, fun built unpublished => ?_, hcopy, huntracked, hsame,
    fun other => ?_, fun decodes => ?_, fun lossless decodes => ?_⟩
  · exact hmaterialized built (backed_reached config actions id t held unpublished)
  · rw [huntracked, Record.rebuildAs_of_ne other]
    rfl
  · rw [hcopy, Loaded.map_detached_error]
    split
    · next hread =>
      simp only [hread, not_true_eq_false, false_and, iff_false]
      exact decodes.ne_wrongType _ _
    · next hread => rw [Record.rebuildAs_wrongType_iff decodes, and_iff_right hread]
  · have hfields : fields = r.fields := by
      refine flattened.eq_fields ?_
      rwa [sound.stores.materializer_eq stored]
    rw [hsame, hfields]
    exact forall_congr' fun _ => Record.copyAs_eq_rebuildAs_iff decodes

end Session

end

namespace Session

open Transaction

/-- A transaction has read a counter that another one has committed. -/
def counterRead : List Action :=
  [.begin, .attach 1 (.counter 5), .publish 1, .conclude 1, .begin, .perform 2 (.read .counter ⟨1⟩)]

def storedCounter : Record := (PendingRecord.ofObject ⟨1⟩ (.counter 5)).stamp 1

theorem held_counterRead : ∃ t, ((ofConfig {}).run counterRead).engine.held.find? 2 = some t ∧
    t.status = .active ∧ t.snapshot.read ⟨1⟩ = some storedCounter ∧ ⟨1⟩ ∉ t.writeSet ∧
    ⟨1⟩ ∈ t.readSet := by
  obtain ⟨t, held⟩ := Option.isSome_iff_exists.mp
    (by decide +kernel : (((ofConfig {}).run counterRead).engine.held.find? 2).isSome = true)
  have hfacts : (((ofConfig {}).run counterRead).engine.held.find? 2).map
      (fun t => (t.status, t.snapshot.read ⟨1⟩, t.writeSet, t.readSet)) =
      some (.active, some storedCounter, [], [⟨1⟩]) := by decide +kernel
  rw [held] at hfacts
  simp only [Option.map_some, Option.some.injEq, Prod.mk.injEq] at hfacts
  obtain ⟨active, stored, hwrites, hreads⟩ := hfacts
  refine ⟨t, held, active, stored, ?_, ?_⟩
  · rw [hwrites]
    exact List.not_mem_nil
  · rw [hreads]
    exact List.mem_singleton_self _

/-- It gets an object of another type where it ought to be told that the counter is none. -/
theorem copies_of_unwritten_counter : ∃ t,
    ((ofConfig {}).run counterRead).engine.held.find? 2 = some t ∧
    (load .obj ⟨1⟩ .unmanaged).result t = (.ok (.detached (.obj [.int 5])), t) ∧
    ((load .obj ⟨1⟩ .unmanaged).result (t.forget ⟨1⟩)).1 = .error (.wrongType "Obj" "Counter") ∧
    ((load .counter ⟨1⟩ .unmanaged).result t).1 =
      ((load .counter ⟨1⟩ .unmanaged).result (t.forget ⟨1⟩)).1 := by
  obtain ⟨t, held, active, stored, unwritten, hread⟩ := held_counterRead
  obtain ⟨fields, flattened, -, -, hcopy, -, -, huntracked, -, -⟩ :=
    copies_of_unwritten {} counterRead held active stored unwritten .obj
  obtain ⟨-, -, -, -, -, -, -, -, -, hsame⟩ :=
    copies_of_unwritten {} counterRead held active stored unwritten .counter
  have hfields : fields = storedCounter.fields := flattened.eq_fields (ObjectType.lossless_stock _)
  rw [if_pos hread, hfields] at hcopy
  refine ⟨t, held, hcopy.trans (by rfl), huntracked nofun, ?_⟩
  exact (hsame (ObjectType.lossless_stock _) (ObjectType.onlyDecodes_stock _)).mpr fun _ => rfl

/-- So an unmanaged load depends on whether the object is tracked. -/
theorem copy_depends_on_tracking :
    ¬ ∀ (config : Config) (actions : List Action) (id : TxnId) (t : Transaction) (h : Handle) (r : Record),
      ((ofConfig config).run actions).engine.held.find? id = some t → t.status = .active →
      t.snapshot.read h = some r → h ∉ t.writeSet → ∀ type,
        ((load type h .unmanaged).result t).1 = ((load type h .unmanaged).result (t.forget h)).1 := by
  intro independent
  obtain ⟨t, held, active, stored, unwritten, hread⟩ := held_counterRead
  have hsame := independent {} counterRead 2 t ⟨1⟩ storedCounter held active stored unwritten .obj
  have sound := ((sound_reached {} counterRead).held 2 t held).sound
  obtain ⟨fields, flattened, -, -, hload⟩ := sound.load_unmanaged_unwritten active unwritten stored
  have hfields : fields = storedCounter.fields := flattened.eq_fields (ObjectType.lossless_stock _)
  rw [hload .obj, if_pos hread, hfields, load_unmanaged_of_untracked (t := t.forget ⟨1⟩) active
    (find?_forget ⟨1⟩ t) stored .obj] at hsame
  cases hsame

end Session

section

variable [Transactables]

namespace Session

open Transaction

/-- A record is rebuilt by its materializer and then viewed as one of a type, or it is read as one of that
type at once. Both come to the same object of the same records, but the first only if no field is left
over. A transaction reads in the first way what it has not written, and a copy is made in the second way,
be it one of the past or of an untracked object; so a transaction can read just the copies that leave no
field over. No object that survives flattening leaves one. What a transaction reads in the middle of its own
commit is left open. -/
theorem reads_and_copies_agree (r : Record) (type : ObjectType) (o : Object) :
    (r.rebuildAs type = .ok o ↔ r.type = type ∧ r.copyAs type = .ok o) ∧
    (r.rebuild.bind (·.castTo type) = .ok o ↔
      r.materializer.type = type ∧ r.copyAs type = .ok o ∧ r.unread = 0) ∧
    ∀ (config : Config) (actions : List Action), let s := (ofConfig config).run actions
      ∀ id t, s.engine.held.find? id = some t → t.status = .active →
      ∀ h, t.snapshot.read h = some r → h ∉ t.writeSet →
        r.materializer = ⟨r.type⟩ ∧
        ((∀ a ∈ actions, a.Within Object.Faithful) → r.unread = 0) ∧
        ∀ v, ¬ s.engine.store.heap.version < v → s.engine.store.heap.snapshotAt v = .ok t.snapshot →
          (s.core.Unpublished id → (((read type h).result t).1 = .ok o ↔
            s.engine.store.readAt type h v = .ok (some o) ∧ r.unread = 0)) ∧
          (h ∉ t.readSet → (((load type h .unmanaged).result t).1 = .ok (.detached o) ↔
            s.engine.store.readAt type h v = .ok (some o))) := by
  refine ⟨Record.rebuildAs_iff, Record.rebuild_castTo_iff, ?_⟩
  intro config actions s id t held active h stored unwritten
  have sound := ((sound_reached config actions).held id t held).sound
  have hmaterializer := sound.stores.materializer_eq stored
  refine ⟨hmaterializer, fun within => ?_, fun v present found => ?_⟩
  · have faithful := ((sound_run within (sound_ofConfig config)).held id t held).sound.stores
    obtain ⟨-, o', isFaithful, holds⟩ := faithful.record h r stored
    exact holds.unread_eq isFaithful
  · have hpast : s.engine.store.readAt type h v = .ok (some o) ↔ r.rebuildAs type = .ok o := by
      rw [Store.readAt_eq present found stored]
      cases r.rebuildAs type <;> simp [Except.map]
    refine ⟨fun unpublished => ?_, fun untracked => ?_⟩
    · have backed := backed_reached config actions id t held unpublished
      rw [hpast, backed.read_unwritten sound active unwritten stored, Record.rebuild_castTo_iff,
        Record.rebuildAs_iff, hmaterializer, and_assoc]
    · have hnone : t.entries.find? h = none := by
        rw [Option.eq_none_iff_forall_ne_some]
        exact fun e he => untracked ((sound.mem_readSet_of_stored stored).mpr ⟨e, he⟩)
      rw [hpast, load_unmanaged_of_untracked active hnone stored]
      cases r.rebuildAs type <;> simp [Except.map]

end Session

end

namespace Session

open Transaction

/-- The counter can be read as what a copy of it is. -/
theorem reads_and_copies_agree_counter : ∃ t,
    ((ofConfig {}).run counterRead).engine.held.find? 2 = some t ∧
    ((ofConfig {}).run counterRead).engine.store.readAt .counter ⟨1⟩ 1 = .ok (some (.counter 5)) ∧
    ((read .counter ⟨1⟩).result t).1 = .ok (.counter 5) := by
  obtain ⟨t, held, active, stored, unwritten, -⟩ := held_counterRead
  have within : ∀ a ∈ counterRead, a.Within Object.Faithful := by
    intro a ha
    simp only [counterRead, List.mem_cons, List.not_mem_nil, or_false] at ha
    rcases ha with rfl | rfl | rfl | rfl | rfl | rfl <;> trivial
  obtain ⟨-, -, agree⟩ := reads_and_copies_agree storedCounter .counter (.counter 5)
  obtain ⟨-, hnone, hreads⟩ := agree {} counterRead 2 t held active ⟨1⟩ stored unwritten
  have hcopy : ((ofConfig {}).run counterRead).engine.store.readAt .counter ⟨1⟩ 1 =
      .ok (some (.counter 5)) := by decide +kernel
  have found : ((ofConfig {}).run counterRead).engine.store.heap.snapshotAt 1 = .ok t.snapshot := by
    have hnewest : (((ofConfig {}).run counterRead).engine.held.find? 2).map (·.snapshot) =
        some ((ofConfig {}).run counterRead).engine.store.heap.head := by rfl
    rw [held] at hnewest
    have hhead : t.snapshot = _ := Option.some.inj hnewest
    rw [hhead]
    exact Snapshot.asOf_of_le (by decide +kernel)
  have outside : ((ofConfig {}).run counterRead).core.Unpublished 2 := Core.unpublished_of_free (by rfl)
  exact ⟨t, held, hcopy, (hreads 1 (by decide +kernel) found).1 outside |>.mpr ⟨hcopy, hnone within⟩⟩

/-- Of a leaky object with two fields a copy can be made, but its record cannot be rebuilt. -/
theorem copies_leave_fields :
    ¬ ∀ (h : Handle) (o : Object) (v : Version) (type : ObjectType) (x : Object),
      ((PendingRecord.ofObject h o).stamp v).rebuildAs type = .ok x ↔
        ((PendingRecord.ofObject h o).stamp v).rebuild.bind (·.castTo type) = .ok x := by
  intro agree
  have hcopy := (agree ⟨1⟩ (.leaky [.int 1, .int 2]) 1 .leaky (.leaky [.int 1])).mp (by decide)
  revert hcopy
  decide

end Session

end TransactionalHeap
