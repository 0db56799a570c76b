import TransactionalHeap.Proofs.Fields.RoundTrip
import TransactionalHeap.Proofs.Object.Decoding

/-!
# What the ready-made types rebuild

Reading never makes a value up: whatever a reader of a ready-made type takes from a list is the
flattening of the object it gives. So these types lose nothing, and they fail for no other reason than
that the fields do not fit. All their objects but the leaky ones are faithful.
-/
namespace TransactionalHeap

namespace FieldReader

/-- From the one reader to the other the listed fields were taken. -/
def Takes (r r' : FieldReader) (taken : Fields) : Prop :=
  r'.fields = r.fields ∧ r.rest = taken ++ r'.rest

theorem Takes.trans {r r₁ r₂ : FieldReader} {xs ys : Fields} (h : Takes r r₁ xs)
    (h' : Takes r₁ r₂ ys) : Takes r r₂ (xs ++ ys) :=
  ⟨h'.1.trans h.1, by rw [h.2, h'.2, List.append_assoc]⟩

variable {r r' : FieldReader}

theorem takes_of_next {v : Value} (h : next r = .ok v r') : Takes r r' [v] := by
  unfold next at h
  split at h
  · next found hfound =>
    cases h
    obtain ⟨hlt, hget⟩ := List.getElem?_eq_some_iff.mp hfound
    refine ⟨rfl, ?_⟩
    rw [rest, List.drop_eq_getElem_cons hlt, hget]
    rfl
  · cases h

/-- A typed read takes the value that its result is the content of. -/
theorem takes_of_nextAs {α : Type} {kind : ValueKind} {view : Value → Option α} (make : α → Value)
    (hview : ∀ v a, view v = some a → v = make a) {a : α} (h : nextAs kind view r = .ok a r') :
    Takes r r' [make a] := by
  obtain ⟨v, r₁, hnext, h⟩ := ok_of_bind h
  cases hfound : view v with
  | none =>
    rw [hfound] at h
    cases h
  | some b =>
    rw [hfound] at h
    cases h
    rw [← hview v a hfound]
    exact takes_of_next hnext

theorem takes_of_nextBool {b : Bool} (h : nextBool r = .ok b r') : Takes r r' [.bool b] :=
  takes_of_nextAs .bool (by rintro ⟨⟩ <;> simp [Value.asBool?]) h

theorem takes_of_nextInt {n : Int64} (h : nextInt r = .ok n r') : Takes r r' [.int n] :=
  takes_of_nextAs .int (by rintro ⟨⟩ <;> simp [Value.asInt?]) h

theorem takes_of_nextFloat {bits : UInt64} (h : nextFloat r = .ok bits r') :
    Takes r r' [.float bits] :=
  takes_of_nextAs .float (by rintro ⟨⟩ <;> simp [Value.asFloat?]) h

theorem takes_of_nextString {text : String} (h : nextString r = .ok text r') :
    Takes r r' [.string text] :=
  takes_of_nextAs .string (by rintro ⟨⟩ <;> simp [Value.asString?]) h

theorem takes_of_nextBytes {octets : List UInt8} (h : nextBytes r = .ok octets r') :
    Takes r r' [.bytes octets] :=
  takes_of_nextAs .bytes (by rintro ⟨⟩ <;> simp [Value.asBytes?]) h

theorem takes_of_nextRef {handle : Handle} (h : nextRef r = .ok handle r') :
    Takes r r' [.ref handle] :=
  takes_of_nextAs .ref (by rintro ⟨⟩ <;> simp [Value.asRef?]) h

theorem takes_of_nextOptRef {handle : Option Handle} (h : nextOptRef r = .ok handle r') :
    Takes r r' [Value.ofOptRef handle] := by
  obtain ⟨v, r₁, hnext, h⟩ := ok_of_bind h
  have htaken := takes_of_next hnext
  cases v <;> cases h <;> exact htaken

theorem eq_of_refItems {items : List Value} {handles : List Handle}
    (h : refItems items r = .ok handles r') : r' = r ∧ items = handles.map Value.ref := by
  induction items generalizing handles r' with
  | nil =>
    cases h
    exact ⟨rfl, rfl⟩
  | cons v later ih =>
    rw [refItems] at h
    cases hfound : v.asRef? with
    | none =>
      rw [hfound] at h
      cases h
    | some found =>
      rw [hfound] at h
      obtain ⟨hs, r₁, hlater, hdone⟩ := ok_of_bind h
      obtain ⟨rfl, rfl⟩ := ih hlater
      cases hdone
      cases v <;> cases hfound
      exact ⟨rfl, rfl⟩

theorem takes_of_nextRefs {handles : List Handle} (h : nextRefs r = .ok handles r') :
    Takes r r' [Value.ofRefs handles] := by
  obtain ⟨v, r₁, hnext, h⟩ := ok_of_bind h
  have htaken := takes_of_next hnext
  cases hitems : v.asArray? with
  | none =>
    rw [hitems] at h
    cases h
  | some items =>
    rw [hitems] at h
    obtain ⟨rfl, rfl⟩ := eq_of_refItems h
    cases v <;> cases hitems
    exact htaken

theorem takes_of_nextAll {fields : Fields} (h : nextAll r = .ok fields r') : Takes r r' fields := by
  cases h
  exact ⟨rfl, by simp [rest]⟩

end FieldReader

open FieldReader

/-- What a type reads is the flattening of what it gives. -/
theorem StockType.takes_of_rematerialize {type : StockType} {o : StockObject} {r r' : FieldReader}
    (h : type.rematerialize r = .ok o r') : o.type = type ∧ Takes r r' o.dematerialize := by
  cases type with
  | obj | «sealed» =>
    obtain ⟨fields, r₁, hfields, h⟩ := ok_of_bind h
    cases h
    exact ⟨rfl, takes_of_nextAll hfields⟩
  | leaky | counter =>
    obtain ⟨n, r₁, hn, h⟩ := ok_of_bind h
    cases h
    exact ⟨rfl, takes_of_nextInt hn⟩
  | unit =>
    cases h
    exact ⟨rfl, rfl, rfl⟩
  | reading =>
    obtain ⟨bits, r₁, hbits, h⟩ := ok_of_bind h
    cases h
    exact ⟨rfl, takes_of_nextFloat hbits⟩
  | account =>
    obtain ⟨owner, r₁, howner, h⟩ := ok_of_bind h
    obtain ⟨balance, r₂, hbalance, h⟩ := ok_of_bind h
    cases h
    exact ⟨rfl, (takes_of_nextString howner).trans (takes_of_nextInt hbalance)⟩
  | node =>
    obtain ⟨value, r₁, hvalue, h⟩ := ok_of_bind h
    obtain ⟨next, r₂, hnext, h⟩ := ok_of_bind h
    cases h
    exact ⟨rfl, (takes_of_nextInt hvalue).trans (takes_of_nextOptRef hnext)⟩
  | multi =>
    obtain ⟨links, r₁, hlinks, h⟩ := ok_of_bind h
    cases h
    exact ⟨rfl, takes_of_nextRefs hlinks⟩
  | mixed =>
    obtain ⟨flag, r₁, hflag, h⟩ := ok_of_bind h
    obtain ⟨ratio, r₂, hratio, h⟩ := ok_of_bind h
    obtain ⟨name, r₃, hname, h⟩ := ok_of_bind h
    obtain ⟨blob, r₄, hblob, h⟩ := ok_of_bind h
    obtain ⟨link, r₅, hlink, h⟩ := ok_of_bind h
    obtain ⟨next, r₆, hnext, h⟩ := ok_of_bind h
    obtain ⟨links, r₇, hlinks, h⟩ := ok_of_bind h
    cases h
    exact ⟨rfl, (takes_of_nextBool hflag).trans <| (takes_of_nextFloat hratio).trans <|
      (takes_of_nextString hname).trans <| (takes_of_nextBytes hblob).trans <|
      (takes_of_nextRef hlink).trans <| (takes_of_nextOptRef hnext).trans <|
      takes_of_nextRefs hlinks⟩

/-- Reading the flattening of an object gives it back and takes every field, unless the object is leaky. -/
theorem StockObject.run_dematerialize {o : StockObject} (h : o.type ≠ .leaky) :
    o.type.rematerialize (start o.dematerialize) =
      .ok o ⟨o.dematerialize, o.dematerialize.length⟩ := by
  cases o with
  | leaky fields => exact absurd rfl h
  | unit | counter | reading | account => rfl
  | node value next => cases next <;> rfl
  | obj fields | «sealed» fields => rfl
  | multi links =>
    have hlinks := refItems_map_ref links ⟨[Value.ofRefs links], 1⟩
    simp only [Value.ofRefs] at hlinks
    simp [type, dematerialize, StockType.rematerialize, nextRefs, next, start, Value.ofRefs,
      Value.asArray?, bind, EStateM.bind, pure, EStateM.pure, hlinks]
  | mixed flag ratio name blob link next links =>
    have hlinks := refItems_map_ref links ⟨(mixed flag ratio name blob link next links).dematerialize, 7⟩
    cases next <;>
      simp_all [type, dematerialize, StockType.rematerialize, nextRefs, nextBool, nextFloat, nextString,
        nextBytes, nextRef, nextOptRef, nextAs, FieldReader.next, start, Value.ofRefs, Value.ofOptRef,
        Value.asArray?, Value.asBool?, Value.asFloat?, Value.asString?, Value.asBytes?, Value.asRef?,
        bind, EStateM.bind, pure, EStateM.pure]

namespace ObjectType

/-- What comes of reading an object of a ready-made type. -/
theorem readFrom_stock (type : ObjectType) (fields : Fields) :
    readFrom type.rematerialize fields =
      match StockType.rematerialize type (start fields) with
      | .ok o r => (.ok o, r)
      | .error cause r => (.error (.serialization cause), r) := by
  change readFrom (decoding (StockType.rematerialize type)) fields = _
  unfold readFrom EStateM.run decoding
  cases StockType.rematerialize type (start fields) <;> rfl

/-- Whatever such a type rebuilds flattens to the very fields. -/
theorem lossless_stock (type : ObjectType) : type.Lossless := by
  intro fields o hrun
  unfold Materializer.run at hrun
  rw [readFrom_stock] at hrun
  cases hread : StockType.rematerialize type (start fields) with
  | error cause r =>
    rw [hread] at hrun
    cases hrun
  | ok found r =>
    simp only [hread] at hrun
    split at hrun
    · next hremaining =>
      cases hrun
      obtain ⟨-, htaken⟩ := (StockType.takes_of_rematerialize hread).2
      have hrest : r.rest = [] := List.drop_eq_nil_of_le (Nat.sub_eq_zero_iff_le.mp hremaining)
      rw [hrest, List.append_nil] at htaken
      exact htaken.symm
    · cases hrun

/-- Such a type fails only where the fields do not fit. -/
theorem onlyDecodes_stock (type : ObjectType) : type.OnlyDecodes := by
  intro fields fault hread
  rw [read, readFrom_stock] at hread
  cases hfound : StockType.rematerialize type (start fields) with
  | ok o r =>
    rw [hfound] at hread
    cases hread
  | error cause r =>
    rw [hfound] at hread
    cases hread
    exact ⟨cause, rfl⟩

end ObjectType

/-- All objects but the leaky ones survive flattening. -/
theorem Object.faithful_of_type_ne {o : Object} (h : o.type ≠ .leaky) : o.Faithful := by
  have hread : StockType.rematerialize o.type (start o.dematerialize) =
      .ok o ⟨o.dematerialize, o.dematerialize.length⟩ := StockObject.run_dematerialize h
  unfold Object.Faithful Materializer.run
  rw [ObjectType.readFrom_stock, hread]
  exact if_pos (Nat.sub_self _)

end TransactionalHeap
