import TransactionalHeap.Proofs.Object.Rebuild
import TransactionalHeap.Proofs.Step

/-!
# Two ways of rebuilding a record

A record is rebuilt by its materializer, or as an object of a type that the caller names. Both read the
same fields with the same readers. They differ in their checks: a materializer demands that every field
be read, and the other way demands that the record be of the type. So they agree on records that name
the materializer of their own type and of which no field is left over (`Record.rebuild_castTo_iff`).
-/
namespace TransactionalHeap

open FieldReader

variable [Transactables]

namespace ObjectType

variable {type : ObjectType} {fields : Fields} {o : Object}

/-- Whatever the type rebuilds flattens to the fields that it was rebuilt from. -/
def Lossless (type : ObjectType) : Prop :=
  ∀ fields o, Materializer.run ⟨type⟩ fields = .ok o → o.dematerialize = fields

/-- The type fails only for fields that it cannot decode. -/
def OnlyDecodes (type : ObjectType) : Prop :=
  ∀ fields fault, type.read fields = .error fault → ∃ cause, fault = .serialization cause

/-- Reading alone finds no object of another type, unless the type itself says so. -/
theorem OnlyDecodes.ne_wrongType (decodes : type.OnlyDecodes) (expected actual : String) :
    type.read fields ≠ .error (.wrongType expected actual) := by
  intro hwrong
  obtain ⟨cause, hcause⟩ := decodes fields _ hwrong
  cases hcause

end ObjectType

namespace Record

variable {r : Record} {type : ObjectType} {o : Object}

/-- The fields read as an object of the given type, whatever the type of the record. -/
def copyAs (type : ObjectType) (r : Record) : Except Error Object := type.read r.fields

/-- How many fields the materializer's reader leaves. -/
def unread (r : Record) : Nat :=
  (readFrom r.materializer.type.rematerialize r.fields).2.remaining

theorem rebuildAs_eq (type : ObjectType) (r : Record) : r.rebuildAs type =
    if r.type = type then r.copyAs type else .error (.wrongType type.name r.type.name) := rfl

theorem rebuildAs_of_ne (other : r.type ≠ type) :
    r.rebuildAs type = .error (.wrongType type.name r.type.name) := if_neg other

/-- If the type only decodes, a record of another type is told from those of the type by the error. -/
theorem rebuildAs_wrongType_iff (decodes : type.OnlyDecodes) :
    r.rebuildAs type = .error (.wrongType type.name r.type.name) ↔ r.type ≠ type := by
  refine ⟨fun hwrong same => ?_, rebuildAs_of_ne⟩
  rw [rebuildAs_eq, if_pos same] at hwrong
  exact decodes.ne_wrongType _ _ hwrong

/-- The check of the type makes a difference just to records of other types, if the type only decodes. -/
theorem copyAs_eq_rebuildAs_iff (decodes : type.OnlyDecodes) :
    r.copyAs type = r.rebuildAs type ↔ r.type = type := by
  refine ⟨fun hsame => Decidable.byContradiction fun other => ?_, fun same => by
    rw [rebuildAs_eq, if_pos same]⟩
  rw [rebuildAs_of_ne other] at hsame
  exact decodes.ne_wrongType _ _ hsame

theorem rebuild_eq (r : Record) : r.rebuild = (r.copyAs r.materializer.type).bind fun o =>
    if r.unread = 0 then .ok o
    else .error (.serialization (.unread r.materializer.type.name r.unread)) := by
  unfold rebuild Materializer.run copyAs ObjectType.read unread
  split
  · next fault left hread =>
    rw [hread]
    rfl
  · next o left hread =>
    rw [hread]
    rfl

theorem type_of_copyAs (hcopy : r.copyAs type = .ok o) : o.type = type :=
  ObjectType.type_of_read hcopy

theorem rebuild_iff : r.rebuild = .ok o ↔ r.copyAs r.materializer.type = .ok o ∧ r.unread = 0 := by
  rw [rebuild_eq]
  cases r.copyAs r.materializer.type with
  | error fault => simp [Except.bind]
  | ok o' =>
    by_cases hnone : r.unread = 0 <;> simp [Except.bind, hnone]

theorem rebuildAs_iff : r.rebuildAs type = .ok o ↔ r.type = type ∧ r.copyAs type = .ok o := by
  rw [rebuildAs_eq]
  by_cases htype : r.type = type <;> simp [htype]

/-- What comes of rebuilding a record and viewing the object as one of a type. -/
theorem rebuild_castTo_iff : r.rebuild.bind (·.castTo type) = .ok o ↔
    r.materializer.type = type ∧ r.copyAs type = .ok o ∧ r.unread = 0 := by
  constructor
  · intro hcast
    obtain ⟨o', hrebuild, hcast⟩ := Except.exists_of_bind_eq_ok hcast
    obtain ⟨hcopy, hunread⟩ := rebuild_iff.mp hrebuild
    obtain ⟨rfl, rfl⟩ := Object.castTo_eq_ok hcast
    have htype := type_of_copyAs hcopy
    exact ⟨htype.symm, htype ▸ hcopy, hunread⟩
  · rintro ⟨rfl, hcopy, hunread⟩
    rw [rebuild_iff.mpr ⟨hcopy, hunread⟩]
    exact if_pos (type_of_copyAs hcopy)

/-- The fields of an object that goes back to the record: those that were stored, or what the object that
is rebuilt from them flattens to. -/
inductive Flattened (r : Record) : Fields → Prop
  | stored : Flattened r r.fields
  | rebuilt {o : Object} (hrebuild : r.rebuild = .ok o) : Flattened r o.dematerialize

theorem Yields.flattened (yields : r.Yields o) : r.Flattened o.dematerialize := by
  obtain ⟨-, hrebuild | hfields⟩ := yields
  · exact .rebuilt hrebuild
  · rw [hfields]
    exact .stored

/-- Of a type that loses nothing these are the same. -/
theorem Flattened.eq_fields {fields : Fields} (flattened : r.Flattened fields)
    (lossless : r.materializer.type.Lossless) : fields = r.fields := by
  cases flattened with
  | stored => rfl
  | rebuilt hrebuild => exact lossless _ _ hrebuild

/-- No field is left over of a faithful object. -/
theorem Holds.unread_eq (holds : r.Holds o) (faithful : o.Faithful) : r.unread = 0 :=
  (rebuild_iff.mp (holds.rebuild faithful)).2

end Record

end TransactionalHeap
