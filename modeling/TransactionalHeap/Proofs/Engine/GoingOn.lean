import TransactionalHeap.Proofs.Engine.Presence
import TransactionalHeap.Proofs.Transaction.GoingOn

/-!
# Transactions that go on in a session

Between two points of a run at which a transaction is active, and unless it starts over in between, it
has only gone on: what it waits for has grown (`Session.later_run`).
-/
namespace TransactionalHeap

variable [Transactables]

/-! ## Fewer objects are good -/

section Mono

variable {good good' : Object → Prop} {s : Snapshot} {h : Handle}

theorem Snapshot.Stores.mono [lasting : Object.Lasting good'] (stores : s.Stores good)
    (imp : ∀ o, good o → good' o) : s.Stores good' where
  record h r hread := by
    obtain ⟨hhandle, o, isGood, hholds⟩ := stores.record h r hread
    exact ⟨hhandle, o, imp o isGood, hholds⟩
  lasting := lasting

theorem Entry.Sound.mono {e : Entry} (sound : e.Sound good s h) (imp : ∀ o, good o → good' o) :
    e.Sound good' s h := by
  cases sound with
  | fresh o absent isGood => exact .fresh o absent (imp o isGood)
  | loaded r object stored yielded =>
    exact .loaded r object stored fun o ho => ⟨imp o (yielded o ho).1, (yielded o ho).2⟩
  | changed r o stored sameType isGood => exact .changed r o stored sameType (imp o isGood)

theorem SavedEntry.Sound.mono {saved : SavedEntry} (sound : saved.Sound good s h)
    (imp : ∀ o, good o → good' o) : saved.Sound good' s h := by
  cases sound with
  | fresh o absent isGood => exact .fresh o absent (imp o isGood)
  | loaded r stored => exact .loaded r stored
  | changed r o stored sameType isGood => exact .changed r o stored sameType (imp o isGood)

/-- A session of good objects is a session of objects. -/
theorem Core.Sound.any {c : Core} (sound : c.Sound good) : c.Sound fun _ => True where
  lasting := inferInstance
  built := sound.built.mono fun w ⟨o, _, hw⟩ => ⟨o, trivial, hw⟩
  held id t held := by
    have belongs := sound.held id t held
    exact ⟨belongs.id_eq, belongs.begun, belongs.past, belongs.sound.stores.mono fun _ _ => trivial,
      fun h e he => (belongs.sound.entries h e he).mono fun _ _ => trivial,
      fun f hf h saved hsaved => (belongs.sound.frames f hf h saved hsaved).mono fun _ _ => trivial⟩
  calls := sound.calls

end Mono

/-! ## Going on -/

/-- Actions in which the transaction does not start over and which bring in only objects that survive
flattening. -/
def Action.GoOn (id : TxnId) (actions : List Action) : Prop :=
  ∀ a ∈ actions, a.Within Object.Faithful ∧ a ≠ .suspend id ∧ a ≠ .wake id

namespace Action.GoOn

variable {id : TxnId}

theorem nil : GoOn id [] := nofun

theorem append (first second : List Action) (hfirst : GoOn id first) (hsecond : GoOn id second) :
    GoOn id (first ++ second) := fun a ha =>
  (List.mem_append.mp ha).elim (hfirst a) (hsecond a)

theorem perform {op : Op} (within : op.Within Object.Faithful) : GoOn id [.perform id op] := by
  intro a ha
  obtain rfl := List.mem_singleton.mp ha
  exact ⟨within, nofun, nofun⟩

end Action.GoOn

theorem Transaction.Sound.later_settled {good : Object → Prop} {t : Transaction} (sound : t.Sound good) :
    t.Later t.settled :=
  .of_kept sound (settled_sound sound) rfl fun h e he =>
    ⟨e.settled, by rw [settled, SortedMap.find?_map, he, Option.map_some]⟩

/-- Whatever is done, a transaction that is active afterwards and has not started over has gone on. -/
theorem Core.Moves.later {c c' : Core} {a : Action} {log : Option Committed} {id : TxnId}
    {t t' : Transaction} (moves : Moves Object.Faithful c a log c') (within : a.Within Object.Faithful)
    (sound : c.Sound Object.Faithful) (asleep : a ≠ .suspend id ∧ a ≠ .wake id)
    (held : c.held.find? id = some t) (held' : c'.held.find? id = some t')
    (active : t'.status = .active) : t.Later t' := by
  have hsame : c.held.find? id = some t' → t.Later t' := by
    intro hkept
    rw [held] at hkept
    cases hkept
    exact .refl t
  -- Either another transaction has been put in place, or this one.
  have hput : ∀ {other : TxnId} {u u' : Transaction}, c.held.find? other = some u →
      (c.held.insert other u').find? id = some t' →
      t.Later t' ∨ other = id ∧ u = t ∧ u' = t' := by
    intro other u u' hu hnow
    rcases SortedMap.find?_of_insert hnow with ⟨rfl, rfl⟩ | ⟨-, hkept⟩
    · rw [held] at hu
      cases hu
      exact .inr ⟨rfl, rfl, rfl⟩
    · exact .inl (hsame hkept)
  have tSound := (sound.held id t held).sound
  have hoperated : ∀ {other : TxnId} {u : Transaction} {op : Op}, op.Within Object.Faithful →
      c.held.find? other = some u →
      (c.held.insert other (op.run.after u)).find? id = some t' → t.Later t' := by
    intro other u op hwithin hu hnow
    rcases hput hu hnow with hlater | ⟨-, rfl, rfl⟩
    · exact hlater
    · obtain ⟨hrest, -⟩ := Transaction.performs_soundly hwithin tSound
      rw [hrest] at active
      exact Transaction.later_op (fun _ ho => ho) hwithin tSound active
  cases moves with
  | nothing mayRefuse | usedHandle absent | parked hu active' free => exact hsame held'
  | began which =>
    have hnew := Nat.ne_of_lt (sound.held id t held).begun
    exact hsame ((SortedMap.find?_insert_of_ne _ _ hnew).symm.trans held')
  | dropped hu free => exact hsame (SortedMap.find?_of_erase held').2
  | performed hu free => exact hoperated within hu held'
  | @attached other o u hu free =>
    have within' : (Op.attachTo ⟨c.nextHandle⟩ o).Within Object.Faithful := within
    exact hoperated within' hu held'
  | ended hu which hasEnded =>
    rcases hput hu held' with hlater | ⟨-, -, rfl⟩
    · exact hlater
    · exact absurd active hasEnded.inactive
  | published hu free active' closed collected rest sound' due nonempty unconflicted version
      handles =>
    rcases hput hu held' with hlater | ⟨-, rfl, rfl⟩
    · exact hlater
    · rw [Transaction.collectWrites_eq tSound] at collected
      cases collected
      exact tSound.later_settled
  | suspended hu waiting =>
    rcases hput hu held' with hlater | ⟨rfl, -⟩
    · exact hlater
    · exact absurd rfl asleep.1
  | woken hu waiting =>
    rcases hput hu held' with hlater | ⟨rfl, -⟩
    · exact hlater
    · exact absurd rfl asleep.2

/-- A transaction that is still active after such actions has gone on. -/
theorem Session.later_run {s : Session} {id : TxnId} {t t' : Transaction} {actions : List Action}
    (goOn : Action.GoOn id actions) (sound : s.core.Sound Object.Faithful)
    (held : s.engine.held.find? id = some t)
    (held' : (s.run actions).engine.held.find? id = some t') (active : t'.status = .active) :
    t.Later t' := by
  induction actions generalizing s t with
  | nil =>
    have hsame : s.engine.held.find? id = some t' := held'
    rw [held] at hsame
    cases hsame
    exact .refl _
  | cons a later ih =>
    obtain ⟨within, asleep⟩ := goOn a List.mem_cons_self
    have hmoves := moves sound a
    have hsound := sound_step within sound
    cases hnext : (s.step a).engine.held.find? id with
    | none =>
      -- Who has been let go of does not come back.
      have hused := Nat.lt_of_lt_of_le (sound.held id t held).begun hmoves.next_le
      have hgone := absent_run hsound.any hnext hused later
      rw [show ((s.step a).run later).engine.held.find? id = some t' from held'] at hgone
      cases hgone
    | some u =>
      have hrest : u.Later t' :=
        ih (fun b hb => goOn b (List.mem_cons_of_mem _ hb)) hsound hnext held'
      have hactive : u.status = .active := hrest.status_eq.symm.trans active
      exact (hmoves.later within sound asleep held hnext hactive).trans hrest

end TransactionalHeap
