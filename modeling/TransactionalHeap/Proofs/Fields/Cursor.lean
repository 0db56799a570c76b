import TransactionalHeap.Proofs.Fields.RoundTrip

/-!
# Reading fields of any kind

A reader is asked for anything at all, of a field list that may hold anything, and is asked again after
a call has failed. Each call takes the field that it finds, fitting or not, and at the end of the list
no call takes anything. So the reader's position counts the calls until it stays at the length of the
list, and the position in a report is that of the field that was taken (`FieldReader.answers_in_place`).
-/
namespace TransactionalHeap

namespace FieldReader

/-! ## Which fields fit a call -/

/-- The field is of the kind that the call asks for, and this is what the call gives. -/
inductive Gives : Call → Value → Content → Prop
  | value (v : Value) : Gives .value v (.value v)
  | bool (b : Bool) : Gives .bool (.bool b) (.bool b)
  | int (n : Int64) : Gives .int (.int n) (.int n)
  | float (bits : UInt64) : Gives .float (.float bits) (.float bits)
  | str (text : String) : Gives .str (.string text) (.text text)
  | string (text : String) : Gives .string (.string text) (.text text)
  | bytes (octets : List UInt8) : Gives .bytes (.bytes octets) (.bytes octets)
  | ref (h : Handle) : Gives .ref (.ref h) (.ref h)
  | absent : Gives .optRef .null (.optRef none)
  | present (h : Handle) : Gives .optRef (.ref h) (.optRef (some h))
  | refs (hs : List Handle) : Gives .refs (.array (hs.map .ref)) (.refs hs)

/-- The kind of field that a call asks for, if there is just one. -/
def Call.kind? : Call → Option ValueKind
  | .value | .optRef => none
  | .bool => some .bool
  | .int => some .int
  | .float => some .float
  | .str | .string => some .string
  | .bytes => some .bytes
  | .ref => some .ref
  | .refs => some .array

/-- The field is of another kind than the call asks for, or is a list with another item than a
reference. The report tells what was expected and the kind of what was found: of the field, or of the
first such item. -/
inductive Misses : Call → Value → Expectation → ValueKind → Prop
  | kind {call : Call} {kind : ValueKind} {v : Value} (asks : call.kind? = some kind)
      (other : v.kind ≠ kind) : Misses call v (.one kind) v.kind
  | optRef {v : Value} (notNull : v.kind ≠ .null) (notRef : v.kind ≠ .ref) :
      Misses .optRef v .refOrNull v.kind
  | item (hs : List Handle) {v : Value} (later : List Value) (notRef : v.kind ≠ .ref) :
      Misses .refs (.array (hs.map .ref ++ v :: later)) (.one .ref) v.kind

/-- A list holds references only, or there is a first item that is none. -/
theorem refs_or_item (vs : List Value) : (∃ hs : List Handle, vs = hs.map .ref) ∨
    ∃ (hs : List Handle) (v : Value) (later : List Value), vs = hs.map .ref ++ v :: later ∧
      v.kind ≠ .ref := by
  induction vs with
  | nil => exact .inl ⟨[], rfl⟩
  | cons v later ih =>
    cases v with
    | ref h =>
      rcases ih with ⟨hs, rfl⟩ | ⟨hs, other, rest, rfl, notRef⟩
      · exact .inl ⟨h :: hs, rfl⟩
      · exact .inr ⟨h :: hs, other, rest, rfl, notRef⟩
    | null | bool | int | float | string | bytes | array => exact .inr ⟨[], _, later, rfl, nofun⟩

/-- Every field fits a call or does not. -/
theorem gives_or_misses (call : Call) (v : Value) :
    (∃ content, Gives call v content) ∨ ∃ expected found, Misses call v expected found := by
  cases call with
  | value => exact .inl ⟨_, .value v⟩
  | bool =>
    cases v with
    | bool b => exact .inl ⟨_, .bool b⟩
    | _ => exact .inr ⟨_, _, .kind rfl nofun⟩
  | int =>
    cases v with
    | int n => exact .inl ⟨_, .int n⟩
    | _ => exact .inr ⟨_, _, .kind rfl nofun⟩
  | float =>
    cases v with
    | float bits => exact .inl ⟨_, .float bits⟩
    | _ => exact .inr ⟨_, _, .kind rfl nofun⟩
  | str =>
    cases v with
    | string text => exact .inl ⟨_, .str text⟩
    | _ => exact .inr ⟨_, _, .kind rfl nofun⟩
  | string =>
    cases v with
    | string text => exact .inl ⟨_, .string text⟩
    | _ => exact .inr ⟨_, _, .kind rfl nofun⟩
  | bytes =>
    cases v with
    | bytes octets => exact .inl ⟨_, .bytes octets⟩
    | _ => exact .inr ⟨_, _, .kind rfl nofun⟩
  | ref =>
    cases v with
    | ref h => exact .inl ⟨_, .ref h⟩
    | _ => exact .inr ⟨_, _, .kind rfl nofun⟩
  | optRef =>
    cases v with
    | null => exact .inl ⟨_, .absent⟩
    | ref h => exact .inl ⟨_, .present h⟩
    | _ => exact .inr ⟨_, _, .optRef nofun nofun⟩
  | refs =>
    cases v with
    | array vs =>
      rcases refs_or_item vs with ⟨hs, rfl⟩ | ⟨hs, other, later, rfl, notRef⟩
      · exact .inl ⟨_, .refs hs⟩
      · exact .inr ⟨_, _, .item hs later notRef⟩
    | _ => exact .inr ⟨_, _, .kind rfl nofun⟩

/-! ## How a call ends -/

variable {r : FieldReader} {call : Call} {v : Value}

theorem next_of_none (past : r.fields[r.position]? = none) :
    next r = .error (.pastEnd r.position r.fields.length) r := by
  rw [next, past]

theorem map_of_error {α β : Type} {reading : Reading α} {fault : DecodeFault} {r' : FieldReader}
    (f : α → β) (h : reading r = .error fault r') : (f <$> reading) r = .error fault r' := by
  change EStateM.map f reading r = _
  rw [EStateM.map, h]

/-- At the end every call fails and leaves the reader as it is. -/
theorem run_of_none (call : Call) (past : r.fields[r.position]? = none) :
    call.run r = .error (.pastEnd r.position r.fields.length) r := by
  have hnext := next_of_none past
  cases call with
  | value => exact map_of_error _ hnext
  | _ => exact map_of_error _ (bind_of_error hnext)

/-- Reporting on the field just taken: its position is the one before the reader's. -/
theorem mismatch_advance {α : Type} (expected : Expectation) (v : Value) :
    (mismatch expected v : Reading α) r.advance =
      .error (.mismatch r.position expected v.kind) r.advance := rfl

theorem nextAs_of_none {α : Type} {kind : ValueKind} {view : Value → Option α}
    (here : r.fields[r.position]? = some v) (unseen : view v = none) :
    nextAs kind view r = .error (.mismatch r.position (.one kind) v.kind) r.advance := by
  rw [nextAs, bind_of_ok (next_of_some here)]
  simp only [unseen]
  exact mismatch_advance (.one kind) v

theorem nextOptRef_of_other (here : r.fields[r.position]? = some v) (notNull : v.kind ≠ .null)
    (notRef : v.kind ≠ .ref) :
    nextOptRef r = .error (.mismatch r.position .refOrNull v.kind) r.advance := by
  rw [nextOptRef, bind_of_ok (next_of_some here)]
  cases v with
  | null => exact absurd rfl notNull
  | ref h => exact absurd rfl notRef
  | _ => exact mismatch_advance .refOrNull _

/-- Viewing list items takes no field, so all reports are on the list's own position. -/
theorem refItems_of_item (hs : List Handle) (later : List Value) (notRef : v.kind ≠ .ref) :
    refItems (hs.map .ref ++ v :: later) r.advance =
      .error (.mismatch r.position (.one .ref) v.kind) r.advance := by
  induction hs with
  | nil =>
    cases v with
    | ref h => exact absurd rfl notRef
    | _ => exact mismatch_advance (.one .ref) _
  | cons h rest ih =>
    rw [List.map_cons, List.cons_append, refItems]
    exact bind_of_error ih

theorem nextRefs_of_array {vs : List Value} (here : r.fields[r.position]? = some (.array vs)) :
    nextRefs r = refItems vs r.advance := by
  rw [nextRefs, bind_of_ok (next_of_some here)]
  rfl

theorem nextRefs_of_other (here : r.fields[r.position]? = some v) (other : v.kind ≠ .array) :
    nextRefs r = .error (.mismatch r.position (.one .array) v.kind) r.advance := by
  rw [nextRefs, bind_of_ok (next_of_some here)]
  cases v with
  | array vs => exact absurd rfl other
  | _ => exact mismatch_advance (.one .array) _

/-- A fitting field could have been built for the call. -/
theorem Gives.readBack {content : Content} (gives : Gives call v content) :
    ∃ part : Fields.Part, part.toValue = v ∧ Fields.ReadBack part call content := by
  cases gives with
  | value v => exact ⟨.value v, rfl, .value (.value v)⟩
  | absent => exact ⟨.null, rfl, .null⟩
  | present h => exact ⟨.optReference (some h), rfl, .optReference (some h)⟩
  | bool | int | float | str | string | bytes | ref | refs => exact ⟨_, rfl, by constructor⟩

theorem Gives.run {content : Content} (gives : Gives call v content)
    (here : r.fields[r.position]? = some v) : call.run r = .ok content r.advance := by
  obtain ⟨part, rfl, back⟩ := gives.readBack
  exact back.run here

theorem Misses.run {expected : Expectation} {found : ValueKind} (misses : Misses call v expected found)
    (here : r.fields[r.position]? = some v) :
    call.run r = .error (.mismatch r.position expected found) r.advance := by
  cases misses with
  | optRef notNull notRef => exact map_of_error _ (nextOptRef_of_other here notNull notRef)
  | item hs later notRef =>
    exact map_of_error _ ((nextRefs_of_array here).trans (refItems_of_item hs later notRef))
  | kind asks other =>
    cases call with
    | value | optRef => cases asks
    | refs =>
      cases asks
      exact map_of_error _ (nextRefs_of_other here other)
    | _ =>
      cases asks
      refine map_of_error _ (nextAs_of_none here ?_)
      cases v <;> first | rfl | exact absurd rfl other

/-- What a call answers, and the reader that it leaves. -/
def Call.result (call : Call) (r : FieldReader) : Except DecodeFault Content × FieldReader :=
  match call.run r with
  | .ok content r => (.ok content, r)
  | .error fault r => (.error fault, r)

theorem Gives.result {content : Content} (gives : Gives call v content)
    (here : r.fields[r.position]? = some v) : call.result r = (.ok content, r.advance) := by
  rw [Call.result, gives.run here]

theorem Misses.result {expected : Expectation} {found : ValueKind}
    (misses : Misses call v expected found) (here : r.fields[r.position]? = some v) :
    call.result r = (.error (.mismatch r.position expected found), r.advance) := by
  rw [Call.result, misses.run here]

theorem result_of_none (call : Call) (past : r.fields[r.position]? = none) :
    call.result r = (.error (.pastEnd r.position r.fields.length), r) := by
  rw [Call.result, run_of_none call past]

/-- A call that finds a field takes it. It succeeds if the field fits, and else reports on it. -/
theorem result_of_some (call : Call) (here : r.fields[r.position]? = some v) :
    (call.result r).2 = r.advance ∧
    (∀ content, (call.result r).1 = .ok content ↔ Gives call v content) ∧
    ∀ fault, (call.result r).1 = .error fault ↔
      ∃ expected found, Misses call v expected found ∧ fault = .mismatch r.position expected found := by
  rcases gives_or_misses call v with ⟨content, gives⟩ | ⟨expected, found, misses⟩
  · have hresult := gives.result here
    rw [hresult]
    refine ⟨rfl, fun other => ⟨?_, fun gives' => ?_⟩, fun fault => ⟨nofun, ?_⟩⟩
    · rintro ⟨⟩
      exact gives
    · cases hresult.symm.trans (gives'.result here)
      rfl
    · rintro ⟨expected, found, misses, -⟩
      cases hresult.symm.trans (misses.result here)
  · have hresult := misses.result here
    rw [hresult]
    refine ⟨rfl, fun content => ⟨nofun, fun gives => ?_⟩, fun fault => ⟨?_, ?_⟩⟩
    · cases hresult.symm.trans (gives.result here)
    · rintro ⟨⟩
      exact ⟨expected, found, misses, rfl⟩
    · rintro ⟨expected', found', misses', rfl⟩
      cases hresult.symm.trans (misses'.result here)
      rfl

/-! ## Any number of calls -/

theorem answers_cons (call : Call) (later : List Call) (r : FieldReader) :
    answers (call :: later) r =
      ((call.result r).1 :: (answers later (call.result r).2).1,
        (answers later (call.result r).2).2) := by
  rw [answers, Call.result]
  cases call.run r <;> rfl

/-- Going on for some calls moves a reader by as many fields, but not past the end. -/
theorem answers_snd (calls : List Call) {r : FieldReader} (inside : r.position ≤ r.fields.length) :
    (answers calls r).2 = ⟨r.fields, min (r.position + calls.length) r.fields.length⟩ := by
  induction calls generalizing r with
  | nil => rw [List.length_nil, Nat.add_zero, Nat.min_eq_left inside, answers]
  | cons call later ih =>
    rw [answers_cons, List.length_cons]
    cases here : r.fields[r.position]? with
    | none =>
      have past := List.getElem?_eq_none_iff.mp here
      rw [result_of_none call here, ih inside, Nat.min_eq_right (by omega), Nat.min_eq_right (by omega)]
    | some v =>
      have below := (List.getElem?_eq_some_iff.mp here).1
      rw [(result_of_some call here).1, ih (r := r.advance) below, advance, Nat.add_assoc,
        Nat.add_comm 1]

/-- Each answer is that of its own call to the reader that the calls before have left. -/
theorem answers_getElem? {calls : List Call} {k : Nat} (hcall : calls[k]? = some call)
    (r : FieldReader) :
    (answers calls r).1[k]? = some (call.result (answers (calls.take k) r).2).1 ∧
    (answers (calls.take (k + 1)) r).2 = (call.result (answers (calls.take k) r).2).2 := by
  induction calls generalizing k r with
  | nil => cases hcall
  | cons first later ih =>
    cases k with
    | zero =>
      cases hcall
      rw [answers_cons]
      exact ⟨rfl, congrArg Prod.snd (answers_cons call [] r)⟩
    | succ k =>
      rw [List.take_succ_cons, List.take_succ_cons, answers_cons, answers_cons, answers_cons]
      exact ih hcall (first.result r).2

/-- Whatever is asked of whatever fields: after `k` calls a reader has taken `k` fields, or all of them
if there are no more. A call at the end fails and takes nothing. Any other call takes just the field
that it finds, be it that it succeeds or not. It succeeds if and only if the field is of the kind that
it asks for, and otherwise it reports on that field. -/
theorem answers_in_place (fields : Fields) (calls : List Call) :
    let reader (k : Nat) := (answers (calls.take k) (start fields)).2
    (∀ k ≤ calls.length, reader k = ⟨fields, min k fields.length⟩ ∧
      (reader k).remaining + min k fields.length = fields.length) ∧
    ∀ k call, calls[k]? = some call →
      ∃ answer, (answers calls (start fields)).1[k]? = some answer ∧
        (fields[k]? = none →
          reader (k + 1) = reader k ∧ answer = .error (.pastEnd fields.length fields.length)) ∧
        ∀ v, fields[k]? = some v →
          (reader (k + 1)).position = (reader k).position + 1 ∧
          (∀ content, answer = .ok content ↔ Gives call v content) ∧
          ∀ fault, answer = .error fault ↔
            ∃ expected found, Misses call v expected found ∧ fault = .mismatch k expected found := by
  intro reader
  have hreader : ∀ k ≤ calls.length, reader k = ⟨fields, min k fields.length⟩ := by
    intro k hk
    have hmoved := answers_snd (calls.take k) (r := start fields) (Nat.zero_le _)
    rw [List.length_take_of_le hk] at hmoved
    change _ = (⟨fields, min (0 + k) fields.length⟩ : FieldReader) at hmoved
    rwa [Nat.zero_add] at hmoved
  refine ⟨fun k hk => ⟨hreader k hk, ?_⟩, fun k call hcall => ?_⟩
  · rw [hreader k hk]
    exact Nat.sub_add_cancel (Nat.min_le_right k fields.length)
  · have hk : k < calls.length := (List.getElem?_eq_some_iff.mp hcall).1
    obtain ⟨hanswer, hnext⟩ := answers_getElem? hcall (start fields)
    change reader (k + 1) = (call.result (reader k)).2 at hnext
    have hbefore := hreader k (Nat.le_of_lt hk)
    refine ⟨_, hanswer, fun past => ?_, fun v here => ?_⟩
    · have hend : min k fields.length = fields.length :=
        Nat.min_eq_right (List.getElem?_eq_none_iff.mp past)
      rw [hend] at hbefore
      have hresult := result_of_none (r := reader k) call (by rw [hbefore]; simp)
      rw [hnext]
      change _ ∧ (call.result (reader k)).1 = _
      rw [hresult, hbefore]
      exact ⟨rfl, rfl⟩
    · have hinside : min k fields.length = k :=
        Nat.min_eq_left (Nat.le_of_lt (List.getElem?_eq_some_iff.mp here).1)
      rw [hinside] at hbefore
      obtain ⟨hafter, hgives, hmisses⟩ :=
        result_of_some (r := reader k) call (by rw [hbefore]; exact here)
      rw [congrArg position hbefore] at hmisses
      exact ⟨by rw [hnext, hafter]; rfl, hgives, hmisses⟩

/-- A list with an item that is no reference is taken as a whole, and the reader goes on behind it. -/
example :
    answers [.refs, .ref, .optRef, .int] (start [.array [.ref ⟨1⟩, .int 2], .null, .null]) =
      ([.error (.mismatch 0 (.one .ref) .int), .error (.mismatch 1 (.one .ref) .null),
        .ok (.optRef none), .error (.pastEnd 3 3)],
        ⟨[.array [.ref ⟨1⟩, .int 2], .null, .null], 3⟩) := rfl

end FieldReader

end TransactionalHeap
