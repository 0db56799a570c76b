import TransactionalHeap.Proofs.Object.Decoding
import TransactionalHeap.Proofs.Transaction.Backing
import TransactionalHeap.Proofs.Transaction.Branching

/-!
# Stored objects that a transaction has not written

A stored object can be read, which tracks it, or copied, which does not. Where the transaction has not
written it, both go by its record alone: a read rebuilds the record and views the object as one of the
type (`Transaction.Backed.read_unwritten`). A copy of an untracked object asks whether the record is of
the type. A copy of a tracked one does not, and is made of what the object flattens to once there is one
(`Transaction.Sound.load_unmanaged_unwritten`).
-/
namespace TransactionalHeap

variable [Transactables]

namespace Transaction

variable {good : Object → Prop} {t : Transaction} {h : Handle} {e : Entry} {r : Record}

/-- The entry of a stored object that was not written has what goes back to the record. -/
theorem Sound.entry_unwritten (sound : t.Sound good) (unwritten : h ∉ t.writeSet)
    (stored : t.snapshot.read h = some r) (he : t.entries.find? h = some e) :
    e.buffered = none ∧ ∃ fields, e.dematerialize = .ok fields ∧ r.Flattened fields ∧
      (e.isMaterialized = false → fields = r.fields) ∧
      (e.isMaterialized = true → e.Backed → ∃ o, r.rebuild = .ok o ∧ fields = o.dematerialize) := by
  cases sound.entries h e he with
  | fresh o absent isGood => exact absurd (mem_writeSet_iff.mpr ⟨_, he, rfl⟩) unwritten
  | changed r' o stored' sameType isGood => exact absurd (mem_writeSet_iff.mpr ⟨_, he, rfl⟩) unwritten
  | loaded r' object stored' yielded =>
    obtain rfl := Option.some.inj (stored.symm.trans stored')
    refine ⟨rfl, ?_⟩
    cases object with
    | none => exact ⟨r.fields, rfl, .stored, fun _ => rfl, nofun⟩
    | some o =>
      exact ⟨o.dematerialize, rfl, (yielded o rfl).2.flattened, nofun, fun _ backed =>
        ⟨o, backed rfl r o rfl rfl, rfl⟩⟩

/-- The view shows the stored record. -/
theorem Sound.value_unwritten (sound : t.Sound good) (unwritten : h ∉ t.writeSet)
    (stored : t.snapshot.read h = some r) : t.toView.value h = r.rebuild := by
  apply value_of_stored _ stored
  cases hfound : t.entries.find? h with
  | none => rfl
  | some e => exact (sound.entry_unwritten unwritten stored hfound).1

/-- What is stored is read just where there is an entry. -/
theorem Sound.mem_readSet_of_stored (sound : t.Sound good) (stored : t.snapshot.read h = some r) :
    h ∈ t.readSet ↔ ∃ e, t.entries.find? h = some e :=
  sound.mem_readSet.trans (and_iff_left ⟨r, stored⟩)

/-- Reading rebuilds the record and views the object as one of the type. -/
theorem Backed.read_unwritten (backed : t.Backed) (sound : t.Sound good) (active : t.status = .active)
    (unwritten : h ∉ t.writeSet) (stored : t.snapshot.read h = some r) (type : ObjectType) :
    ((read type h).result t).1 = r.rebuild.bind (·.castTo type) := by
  have hvalue := sound.value_unwritten unwritten stored
  rcases backed.openEntry_cases sound h with ⟨e, o, hv, hopen, -, ho⟩ | ⟨fault, t', hv, hopen, -⟩
  · have hread : read type h t = Step.ofExcept (o.castTo type) (t.put h e) := by
      rw [← Entry.get_of_object ho]
      exact (guarded_eq active _).trans (bind_of_ok hopen)
    rw [← hvalue, hv]
    change _ = o.castTo type
    cases hcast : o.castTo type with
    | ok o' => exact Step.result_of_ok (hread.trans (by rw [hcast]; rfl))
    | error fault => exact Step.result_of_error (hread.trans (by rw [hcast]; rfl))
  · have hread : read type h t = .error fault t' := (guarded_eq active _).trans (bind_of_error hopen)
    rw [← hvalue, hv]
    exact Step.result_of_error hread

/-- A copy of an object that has no entry is one of its record. -/
theorem load_unmanaged_of_untracked (active : t.status = .active) (untracked : t.entries.find? h = none)
    (stored : t.snapshot.read h = some r) (type : ObjectType) :
    (load type h .unmanaged).result t = ((r.rebuildAs type).map .detached, t) := by
  have hload : load type h .unmanaged t = Step.ofExcept ((r.rebuildAs type).map .detached) t := by
    refine (guarded_eq active _).trans ((bind_of_ok rfl).trans ?_)
    simp only [untracked, stored]
    cases r.rebuildAs type <;> rfl
  cases hcopy : (r.rebuildAs type).map Loaded.detached with
  | ok copy => exact Step.result_eq_of_ok (hload.trans (by rw [hcopy]; rfl))
  | error fault => exact Step.result_eq_of_error (hload.trans (by rw [hcopy]; rfl))

/-- A copy of an object that has an entry is read from the entry's fields. -/
theorem load_unmanaged_of_tracked (active : t.status = .active) (tracked : t.entries.find? h = some e)
    {fields : Fields} (hfields : e.dematerialize = .ok fields) (type : ObjectType) :
    (load type h .unmanaged).result t = ((type.read fields).map .detached, t) := by
  have hload : load type h .unmanaged t = Step.ofExcept ((type.read fields).map .detached) t := by
    refine (guarded_eq active _).trans ((bind_of_ok rfl).trans ?_)
    simp only [tracked, hfields]
    apply (bind_of_ok rfl).trans
    cases type.read fields <;> rfl
  cases hcopy : (type.read fields).map Loaded.detached with
  | ok copy => exact Step.result_eq_of_ok (hload.trans (by rw [hcopy]; rfl))
  | error fault => exact Step.result_eq_of_error (hload.trans (by rw [hcopy]; rfl))

/-- A copy leaves the transaction as it is. It is made of the record where there is no entry. Where there is
one it is made of the record's fields, or of those of the object that was rebuilt from the record. -/
theorem Sound.load_unmanaged_unwritten (sound : t.Sound good) (active : t.status = .active)
    (unwritten : h ∉ t.writeSet) (stored : t.snapshot.read h = some r) :
    ∃ fields, r.Flattened fields ∧ (t.isMaterialized h = false → fields = r.fields) ∧
      (t.isMaterialized h = true → t.Backed → ∃ o, r.rebuild = .ok o ∧ fields = o.dematerialize) ∧
      ∀ type, (load type h .unmanaged).result t =
        ((if h ∈ t.readSet then type.read fields else r.rebuildAs type).map .detached, t) := by
  cases hfound : t.entries.find? h with
  | none =>
    have huntracked : h ∉ t.readSet := fun hread => by
      obtain ⟨e, he⟩ := (sound.mem_readSet_of_stored stored).mp hread
      rw [hfound] at he
      cases he
    refine ⟨r.fields, .stored, fun _ => rfl, fun built => ?_, fun type => ?_⟩
    · rw [isMaterialized, hfound] at built
      cases built
    rw [if_neg huntracked]
    exact load_unmanaged_of_untracked active hfound stored type
  | some e =>
    obtain ⟨-, fields, hfields, flattened, hdeferred, hmaterialized⟩ :=
      sound.entry_unwritten unwritten stored hfound
    have hbuilt : t.isMaterialized h = e.isMaterialized := by
      rw [isMaterialized, hfound, Option.any_some]
    rw [hbuilt]
    refine ⟨fields, flattened, hdeferred, fun built backed => hmaterialized built (backed h e hfound),
      fun type => ?_⟩
    rw [if_pos ((sound.mem_readSet_of_stored stored).mpr ⟨e, hfound⟩)]
    exact load_unmanaged_of_tracked active hfound hfields type

/-- The transaction as if it had never come across the object. -/
def forget (h : Handle) (t : Transaction) : Transaction := { t with entries := t.entries.erase h }

theorem find?_forget (h : Handle) (t : Transaction) : (t.forget h).entries.find? h = none :=
  SortedMap.find?_erase_self _ _

end Transaction

end TransactionalHeap
