import TransactionalHeap.Proofs.Object.Rebuild
import TransactionalHeap.Proofs.Snapshot.History
import TransactionalHeap.Transaction.Entry

/-!
# Sound entries

An entry of a transaction is in one of three conditions, each tied to the transaction's snapshot: it
was attached where the snapshot has nothing, it was loaded from what the snapshot has, or it was
loaded and then opened for a change. A saved entry is in the same three conditions, its object
flattened. Every operation on an entry leads from one of them to another.

`good` is whatever is known of all the objects that transactions work on.
-/
namespace TransactionalHeap

variable [Transactables]

/-- The pending revision of some good object. -/
def PendingRecord.Of (good : Object → Prop) (w : PendingRecord) : Prop :=
  ∃ o, good o ∧ w = .ofObject w.handle o

/-- What is rebuilt from the flattening of a good object is good, though it may be another object. -/
class Object.Lasting (good : Object → Prop) : Prop where
  of_run {o o' : Object} : good o → Materializer.run ⟨o.type⟩ o.dematerialize = .ok o' → good o'

instance : Object.Lasting Object.Faithful where
  of_run faithful hrun := by
    rw [faithful] at hrun
    cases hrun
    exact faithful

instance : Object.Lasting fun _ => True where
  of_run _ _ := trivial

/-- Every record is a revision of a good object and lies under its own handle, and good objects last. -/
structure Snapshot.Stores (good : Object → Prop) (s : Snapshot) : Prop where
  record : ∀ h r, s.read h = some r → r.handle = h ∧ ∃ o, good o ∧ r.Holds o
  lasting : Object.Lasting good

theorem Snapshot.Built.stores {good : Object → Prop} {s : Snapshot}
    (built : Built (PendingRecord.Of good) s) (lasting : Object.Lasting good) : s.Stores good where
  record h r hread := by
    obtain ⟨w, ⟨o, hgood, hw⟩, -, hr⟩ := built.written hread
    refine ⟨built.read_handle hread, o, hgood, ?_⟩
    rw [hr, hw]
    exact Record.holds_stamp _ _ _
  lasting := lasting

/-- The object of an entry that a commit may have to write. -/
def Entry.buffered (e : Entry) : Option Object :=
  if e.status.isWriteCandidate then e.object else none

/-- The object of a clean entry is what the record behind it rebuilds to. -/
def Entry.Backed (e : Entry) : Prop :=
  e.status = .clean → ∀ r o, e.origin = some r → e.object = some o → r.rebuild = .ok o

/-- The object that a saved entry would bring back for a commit to write. -/
def SavedEntry.buffered (saved : SavedEntry) : Option Object :=
  saved.state.bind fun fields => (saved.materializer.run fields).toOption

variable {good : Object → Prop} {s : Snapshot} {h : Handle}

/-- The three conditions of an entry. -/
inductive Entry.Sound (good : Object → Prop) (s : Snapshot) (h : Handle) : Entry → Prop
  | fresh (o : Object) (absent : s.read h = none) (isGood : good o) : Sound good s h (.fresh h o)
  | loaded (r : Record) (object : Option Object) (stored : s.read h = some r)
      (yielded : ∀ o, object = some o → good o ∧ r.Yields o) :
      Sound good s h ⟨h, object, some r, r.materializer, .clean⟩
  | changed (r : Record) (o : Object) (stored : s.read h = some r) (sameType : o.type = r.type)
      (isGood : good o) : Sound good s h ⟨h, some o, some r, r.materializer, .dirty⟩

/-- The same conditions of what a branch has saved. -/
inductive SavedEntry.Sound (good : Object → Prop) (s : Snapshot) (h : Handle) : SavedEntry → Prop
  | fresh (o : Object) (absent : s.read h = none) (isGood : good o) :
      Sound good s h ⟨none, ⟨o.type⟩, .fresh, some o.dematerialize⟩
  | loaded (r : Record) (stored : s.read h = some r) :
      Sound good s h ⟨some r, r.materializer, .clean, none⟩
  | changed (r : Record) (o : Object) (stored : s.read h = some r) (sameType : o.type = r.type)
      (isGood : good o) : Sound good s h ⟨some r, r.materializer, .dirty, some o.dematerialize⟩

namespace Snapshot.Stores

variable {r : Record} {o : Object}

/-- A stored record names the materializer of its type. -/
theorem materializer_eq (stores : s.Stores good) (stored : s.read h = some r) :
    r.materializer = ⟨r.type⟩ := by
  obtain ⟨-, o, -, htype, hmaterializer, -⟩ := stores.record h r stored
  rw [hmaterializer, htype]

/-- What is rebuilt from a stored record is of the stored type. -/
theorem type_of_rebuild (stores : s.Stores good) (stored : s.read h = some r)
    (hrebuild : r.rebuild = .ok o) : o.type = r.type := by
  have htype := Materializer.type_of_run hrebuild
  rwa [stores.materializer_eq stored] at htype

theorem good_of_rebuild (stores : s.Stores good) (stored : s.read h = some r)
    (hrebuild : r.rebuild = .ok o) : good o := by
  obtain ⟨-, o', isGood, hholds⟩ := stores.record h r stored
  exact stores.lasting.of_run isGood (hholds.rebuild_eq.symm.trans hrebuild)

end Snapshot.Stores

namespace Entry

variable {e : Entry}

theorem live_of_object {o : Object} (ho : e.object = some o) : e.live = .ok o := by
  simp only [live, ho]

theorem object_of_live {o : Object} (hlive : e.live = .ok o) : e.object = some o := by
  unfold live at hlive
  split at hlive
  · next ho =>
    cases hlive
    exact ho
  · cases hlive

theorem get_of_object {o : Object} (ho : e.object = some o) (type : ObjectType) :
    e.get type = o.castTo type := by
  rw [Entry.get, live_of_object ho]
  rfl

theorem backed_deferred (r : Record) : (Entry.deferred r).Backed := nofun

theorem backed_rebuilt {r : Record} {o : Object} (hrebuild : r.rebuild = .ok o) :
    Backed { Entry.deferred r with object := some o } := by
  intro _ r' o' hr ho
  cases hr
  cases ho
  exact hrebuild

/-- Whatever is not clean is backed. -/
theorem backed_of_ne (changed : e.status ≠ .clean) : e.Backed := fun clean => absurd clean changed

theorem Sound.origin_stored (sound : e.Sound good s h) {r : Record} (horigin : e.origin = some r) :
    s.read h = some r := by
  cases sound with
  | fresh o absent isGood => cases horigin
  | loaded r' object stored yielded => cases horigin; exact stored
  | changed r' o stored sameType isGood => cases horigin; exact stored

/-- What a new entry for a stored object looks like. -/
theorem Sound.deferred (stores : s.Stores good) {r : Record} (stored : s.read h = some r) :
    (Entry.deferred r).Sound good s h := by
  have hentry : Entry.deferred r = ⟨h, none, some r, r.materializer, .clean⟩ := by
    rw [Entry.deferred, (stores.record h r stored).1]
  rw [hentry]
  exact .loaded r none stored fun o ho => by cases ho

/-- Rebuilding an entry's object does nothing where it is there; elsewhere the entry has just been
made from the stored record, and the record is rebuilt. -/
theorem Sound.materialize (stores : s.Stores good) (sound : e.Sound good s h) :
    (∃ o, e.object = some o ∧ e.materialize = .ok e) ∨
    (∃ r, s.read h = some r ∧ e = Entry.deferred r ∧
      e.materialize = r.rebuild.map fun o => { Entry.deferred r with object := some o }) := by
  cases sound with
  | fresh o absent isGood => exact .inl ⟨o, rfl, rfl⟩
  | changed r o stored sameType isGood => exact .inl ⟨o, rfl, rfl⟩
  | loaded r object stored yielded =>
    cases object with
    | some o => exact .inl ⟨o, rfl, rfl⟩
    | none =>
      refine .inr ⟨r, stored, ?_, ?_⟩
      · rw [Entry.deferred, (stores.record h r stored).1]
      · rw [Entry.deferred, (stores.record h r stored).1]
        rfl

theorem Sound.rebuilt (stores : s.Stores good) {r : Record} {o : Object}
    (stored : s.read h = some r) (hrebuild : r.rebuild = .ok o) :
    Sound good s h { Entry.deferred r with object := some o } := by
  have hentry : { Entry.deferred r with object := some o } =
      (⟨h, some o, some r, r.materializer, .clean⟩ : Entry) := by
    rw [Entry.deferred, (stores.record h r stored).1]
  rw [hentry]
  refine .loaded r (some o) stored fun found hfound => ?_
  cases hfound
  exact ⟨stores.good_of_rebuild stored hrebuild, stores.type_of_rebuild stored hrebuild, .inl hrebuild⟩

/-- Opening for a change: an object of another type is refused, any other counts as buffered from
here on. -/
theorem Sound.getForWrite (sound : e.Sound good s h) {o : Object}
    (ho : e.object = some o) (type : ObjectType) :
    (o.type ≠ type ∧ e.getForWrite type = .error (.wrongType type.name o.type.name)) ∨
    (o.type = type ∧ ∃ e', e.getForWrite type = .ok (o, e') ∧ e'.Sound good s h ∧
      e'.buffered = some o) := by
  have hget := get_of_object ho type
  by_cases htype : o.type = type
  · have hcast : o.castTo type = .ok o := if_pos htype
    refine .inr ⟨htype, ?_⟩
    rw [Entry.getForWrite, hget, hcast]
    cases sound with
    | fresh o' absent isGood =>
      cases ho
      exact ⟨_, rfl, .fresh o absent isGood, rfl⟩
    | changed r o' stored sameType isGood =>
      cases ho
      exact ⟨_, rfl, .changed r o stored sameType isGood, rfl⟩
    | loaded r object stored yielded =>
      cases ho
      obtain ⟨isGood, sameType, -⟩ := yielded o rfl
      exact ⟨_, rfl, .changed r o stored sameType isGood, rfl⟩
  · have hcast : o.castTo type = .error (.wrongType type.name o.type.name) := if_neg htype
    refine .inl ⟨htype, ?_⟩
    rw [Entry.getForWrite, hget, hcast]
    rfl

/-- A buffered object may be replaced by a good one of its type. -/
theorem Sound.withObject (sound : e.Sound good s h) {o o' : Object} (ho : e.buffered = some o)
    (sameType : o'.type = o.type) (isGood : good o') :
    Sound good s h { e with object := some o' } := by
  cases sound with
  | fresh o₀ absent _ =>
    cases ho
    have hentry : { Entry.fresh h o with object := some o' } = Entry.fresh h o' := by
      rw [Entry.fresh, Entry.fresh, sameType]
    rw [hentry]
    exact .fresh o' absent isGood
  | changed r o₀ stored hsame _ =>
    cases ho
    exact .changed r o' stored (sameType.trans hsame) isGood
  | loaded r object stored yielded => cases ho

/-- Attaching over an entry works exactly where the snapshot has nothing. -/
theorem Sound.replaceFresh (sound : e.Sound good s h) (o : Object) :
    (s.read h = none ∧ e.replaceFresh o = .ok (.fresh h o)) ∨
    ((∃ r, s.read h = some r) ∧
      e.replaceFresh o = .error (.invalidOperation (.alreadyLoaded h))) := by
  cases sound with
  | fresh o' absent isGood => exact .inl ⟨absent, rfl⟩
  | loaded r object stored yielded => exact .inr ⟨⟨r, stored⟩, rfl⟩
  | changed r o' stored sameType isGood => exact .inr ⟨⟨r, stored⟩, rfl⟩

theorem Sound.buffered_good (sound : e.Sound good s h) {o : Object} (ho : e.buffered = some o) :
    good o := by
  cases sound with
  | fresh o' absent isGood => cases ho; exact isGood
  | loaded r object stored yielded => cases ho
  | changed r o' stored sameType isGood => cases ho; exact isGood

theorem Sound.object_good (sound : e.Sound good s h) {o : Object}
    (ho : e.object = some o) : good o := by
  cases sound with
  | fresh o' absent isGood => cases ho; exact isGood
  | changed r o' stored sameType isGood => cases ho; exact isGood
  | loaded r object stored yielded =>
    exact (yielded o ho).1

/-- Every sound entry can be saved. If objects survive flattening, nothing buffered is lost. -/
theorem Sound.save (stores : s.Stores good) (sound : e.Sound good s h) :
    ∃ saved, e.save = .ok saved ∧ saved.Sound good s h ∧
      ((∀ o, good o → o.Faithful) → saved.buffered = e.buffered) := by
  cases sound with
  | fresh o absent isGood =>
    refine ⟨_, rfl, .fresh o absent isGood, fun faithful => ?_⟩
    exact congrArg Except.toOption (faithful o isGood)
  | loaded r object stored yielded => exact ⟨_, rfl, .loaded r stored, fun _ => rfl⟩
  | changed r o stored sameType isGood =>
    refine ⟨_, rfl, .changed r o stored sameType isGood, fun faithful => ?_⟩
    have hrun : r.materializer.run o.dematerialize = .ok o := by
      rw [stores.materializer_eq stored, ← sameType]
      exact faithful o isGood
    exact congrArg Except.toOption hrun

end Entry

namespace SavedEntry

variable {saved : SavedEntry}

/-- Whatever a saved entry is restored to is sound and has the saved object buffered. -/
theorem Sound.restore (stores : s.Stores good) (sound : saved.Sound good s h) {e : Entry}
    (hrestore : saved.restore h = .ok e) :
    e.Sound good s h ∧ e.buffered = saved.buffered := by
  cases sound with
  | fresh o absent isGood =>
    simp only [SavedEntry.restore, SavedEntry.buffered, Option.bind_some] at hrestore ⊢
    cases hrun : Materializer.run ⟨o.type⟩ o.dematerialize with
    | error fault =>
      rw [hrun] at hrestore
      cases hrestore
    | ok o' =>
      rw [hrun] at hrestore
      have htype : o'.type = o.type := Materializer.type_of_run hrun
      cases hrestore
      rw [← htype]
      exact ⟨.fresh o' absent (stores.lasting.of_run isGood hrun), rfl⟩
  | loaded r stored =>
    cases hrestore
    refine ⟨.loaded r none stored fun o ho => ?_, rfl⟩
    cases ho
  | changed r o stored sameType isGood =>
    simp only [SavedEntry.restore, SavedEntry.buffered, Option.bind_some] at hrestore ⊢
    cases hrun : r.materializer.run o.dematerialize with
    | error fault =>
      rw [hrun] at hrestore
      cases hrestore
    | ok o' =>
      rw [hrun] at hrestore
      rw [stores.materializer_eq stored, ← sameType] at hrun
      have htype : o'.type = o.type := Materializer.type_of_run hrun
      cases hrestore
      exact ⟨.changed r o' stored (htype.trans sameType) (stores.lasting.of_run isGood hrun), rfl⟩

theorem Sound.exists_restore (stores : s.Stores good) (faithful : ∀ o, good o → o.Faithful)
    (sound : saved.Sound good s h) : ∃ e, saved.restore h = .ok e := by
  cases sound with
  | fresh o absent isGood =>
    refine ⟨.fresh h o, ?_⟩
    simp only [SavedEntry.restore]
    rw [faithful o isGood]
    rfl
  | loaded r stored => exact ⟨_, rfl⟩
  | changed r o stored sameType isGood =>
    refine ⟨⟨h, some o, some r, r.materializer, .dirty⟩, ?_⟩
    simp only [SavedEntry.restore]
    rw [stores.materializer_eq stored, ← sameType, faithful o isGood]
    rfl

end SavedEntry

end TransactionalHeap
