import TransactionalHeap.Record

/-!
# Rebuilding and flattening

A rebuild that succeeds gives an object of the materializer's type, and no more is known of it. An object
is faithful if its own flattening rebuilds to it, and a record holds an object if it has its type, the
materializer of its type and its fields. From a record of a faithful object every way of rebuilding gives
that object back.
-/
namespace TransactionalHeap

variable [Transactables]

namespace Materializer

variable {m : Materializer} {fields : Fields} {o : Object}

/-- What can be rebuilt can also be read off without asking that every field be taken. -/
theorem read_of_run (h : m.run fields = .ok o) : m.type.read fields = .ok o := by
  unfold run at h
  unfold ObjectType.read
  split at h
  · cases h
  · next found r' heq =>
    split at h
    · cases h
      rw [heq]
    · cases h

theorem type_of_run (h : m.run fields = .ok o) : o.type = m.type :=
  ObjectType.type_of_read (read_of_run h)

/-- A rebuild fails where the type does, or because fields are left over. -/
theorem run_fails {fault : Error} (h : m.run fields = .error fault) :
    m.type.read fields = .error fault ∨
      ∃ count, fault = .serialization (.unread m.type.name count) := by
  unfold run at h
  unfold ObjectType.read
  split at h
  · next cause left heq =>
    cases h
    exact .inl (by rw [heq])
  · split at h
    · cases h
    · cases h
      exact .inr ⟨_, rfl⟩

end Materializer

/-- The fault is none of the engine's own: it is not serious, or a type has raised it while an object was
rebuilt. -/
def Error.Ordinary (fault : Error) : Prop :=
  fault.isSerious = false ∨ ∃ (type : ObjectType) (fields : Fields), type.read fields = .error fault

theorem Materializer.ordinary_of_run {m : Materializer} {fields : Fields} {fault : Error}
    (h : m.run fields = .error fault) : fault.Ordinary := by
  rcases run_fails h with hread | ⟨count, rfl⟩
  · exact .inr ⟨m.type, fields, hread⟩
  · exact .inl rfl

namespace Object

theorem castTo_self (o : Object) : o.castTo o.type = .ok o := if_pos rfl

/-- An object that was cast is the object, of the type. -/
theorem castTo_eq_ok {o o' : Object} {type : ObjectType} (hcast : o.castTo type = .ok o') :
    o' = o ∧ o.type = type := by
  unfold castTo at hcast
  split at hcast
  · next htype =>
    cases hcast
    exact ⟨rfl, htype⟩
  · cases hcast

/-- Rebuilding the object's own flattening gives it back. -/
def Faithful (o : Object) : Prop := Materializer.run ⟨o.type⟩ o.dematerialize = .ok o

end Object

/-- The record is a committed revision of the object. -/
def Record.Holds (r : Record) (o : Object) : Prop :=
  r.type = o.type ∧ r.materializer = ⟨o.type⟩ ∧ r.fields = o.dematerialize

/-- The object, one of the record's type, is what the record is rebuilt to, or it flattens to what the
record has. -/
def Record.Yields (r : Record) (o : Object) : Prop :=
  o.type = r.type ∧ (r.rebuild = .ok o ∨ o.dematerialize = r.fields)

namespace Record

variable {r : Record} {o : Object}

theorem holds_stamp (handle : Handle) (o : Object) (v : Version) :
    ((PendingRecord.ofObject handle o).stamp v).Holds o :=
  ⟨rfl, rfl, rfl⟩

theorem Holds.rebuild_eq (h : r.Holds o) : r.rebuild = Materializer.run ⟨o.type⟩ o.dematerialize := by
  rw [Record.rebuild, h.2.1, h.2.2]

theorem Holds.rebuild (h : r.Holds o) (faithful : o.Faithful) : r.rebuild = .ok o :=
  h.rebuild_eq.trans faithful

theorem Holds.rebuildAs (h : r.Holds o) (faithful : o.Faithful) :
    r.rebuildAs o.type = .ok o := by
  rw [Record.rebuildAs, if_pos h.1, h.2.2]
  exact Materializer.read_of_run faithful

/-- If the object is faithful, that is the same. -/
theorem Yields.rebuild (yields : r.Yields o) (materializer : r.materializer = ⟨r.type⟩)
    (faithful : o.Faithful) : r.rebuild = .ok o := by
  obtain ⟨htype, hrebuild | hfields⟩ := yields
  · exact hrebuild
  · exact Holds.rebuild ⟨htype.symm, by rw [materializer, htype], hfields.symm⟩ faithful

end Record

end TransactionalHeap
