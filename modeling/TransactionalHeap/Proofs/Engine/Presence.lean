import TransactionalHeap.Proofs.Engine.Invariant

/-!
# Who is held

A transaction is held from its begin until it is dropped, and a number that was given out before never
comes back. So whoever publishes a commit in a run was held at its beginning or began in it, and what
is not told to end stays active.
-/
namespace TransactionalHeap

namespace SortedMap

variable {κ α : Type} [Ranked κ] {m : SortedMap κ α} {key other : κ}

/-- What is bound stays so when anything is inserted. -/
theorem exists_find?_insert (value : α) (h : ∃ found, m.find? other = some found) :
    ∃ found, (m.insert key value).find? other = some found := by
  by_cases hsame : other = key
  · subst hsame
    exact ⟨value, find?_insert_self m other value⟩
  · rwa [find?_insert_of_ne m value hsame]

/-- Inserting under a new key and erasing it again changes nothing. -/
theorem erase_insert (h : m.find? key = none) (value : α) : (m.insert key value).erase key = m := by
  apply ext_find?
  intro other
  by_cases hsame : other = key
  · rw [hsame, find?_erase_self, h]
  · rw [find?_erase_of_ne _ hsame, find?_insert_of_ne _ _ hsame]

end SortedMap

variable [Transactables]

/-- The action ends the transaction, makes it wait, or lets go of it. -/
def Action.Closes (id : TxnId) : Action → Prop
  | .drop other | .abort other | .publish other | .conclude other | .park other | .suspend other
  | .wake other => other = id
  | .begin | .beginAt _ | .attach _ _ | .perform _ _ => False

namespace Core.Moves

variable {good : Object → Prop} {c c' : Core} {a : Action} {log : Option Committed} {id : TxnId}
  {t : Transaction}

theorem next_le (moves : Moves good c a log c') : c.nextTransaction ≤ c'.nextTransaction := by
  cases moves with
  | began which => exact Nat.le_succ _
  | _ => exact Nat.le_refl _

/-- Only a drop makes a transaction go away. -/
theorem held_of_held (moves : Moves good c a log c') (kept : a ≠ .drop id)
    (held : ∃ t, c.held.find? id = some t) : ∃ t, c'.held.find? id = some t := by
  cases moves with
  | nothing mayRefuse | usedHandle absent | parked held' active free => exact held
  | @dropped other u held' free =>
    rwa [SortedMap.find?_erase_of_ne c.held fun hsame => kept (by rw [hsame])]
  | _ => exact SortedMap.exists_find?_insert _ held

/-- Only a begin makes a transaction appear, under the next number. -/
theorem held_or_begun (moves : Moves good c a log c') (held : c'.held.find? id = some t) :
    (∃ u, c.held.find? id = some u) ∨ id = c.nextTransaction := by
  have hinsert : ∀ {other : TxnId} {u u' : Transaction}, c.held.find? other = some u →
      (c.held.insert other u').find? id = some t → ∃ u, c.held.find? id = some u := by
    intro other u u' hother hfound
    rcases SortedMap.find?_of_insert hfound with ⟨rfl, -⟩ | ⟨-, hfound⟩
    · exact ⟨u, hother⟩
    · exact ⟨t, hfound⟩
  cases moves with
  | nothing mayRefuse | usedHandle absent | parked held' active free => exact .inl ⟨t, held⟩
  | began which =>
    rcases SortedMap.find?_of_insert held with ⟨rfl, -⟩ | ⟨-, hfound⟩
    · exact .inr rfl
    · exact .inl ⟨t, hfound⟩
  | dropped held' free => exact .inl ⟨t, (SortedMap.find?_of_erase held).2⟩
  | performed held' free | attached held' free | suspended held' waiting | woken held' waiting
  | ended held' which hasEnded => exact .inl (hinsert held' held)
  | published held' free active closed collected rest tSound due nonempty unconflicted version
      handles => exact .inl (hinsert held' held)

/-- A transaction stays active while it is not told to end. -/
theorem active_of_active (moves : Moves good c a log c') (within : a.Within good)
    (sound : c.Sound good) (spared : ¬ a.Closes id) (held : c.held.find? id = some t)
    (active : t.status = .active) : ∃ t', c'.held.find? id = some t' ∧ t'.status = .active := by
  have hother : ∀ {other : TxnId} (u' : Transaction), other ≠ id →
      ∃ t', (c.held.insert other u').find? id = some t' ∧ t'.status = .active := fun u' hne =>
    ⟨t, (SortedMap.find?_insert_of_ne _ _ (Ne.symm hne)).trans held, active⟩
  have hoperated : ∀ {other : TxnId} {u : Transaction} {op : Op}, op.Within good →
      c.held.find? other = some u →
      ∃ t', (c.held.insert other (op.run.after u)).find? id = some t' ∧ t'.status = .active := by
    intro other u op hwithin hu
    by_cases hsame : id = other
    · subst hsame
      obtain rfl : t = u := Option.some.inj (held.symm.trans hu)
      obtain ⟨hrest, -⟩ := Transaction.performs_soundly hwithin (sound.held id t held).sound
      exact ⟨_, SortedMap.find?_insert_self _ _ _, by rw [hrest]; exact active⟩
    · exact hother _ (Ne.symm hsame)
  cases moves with
  | nothing mayRefuse | usedHandle absent | parked held' active' free => exact ⟨t, held, active⟩
  | began which =>
    exact hother _ (Ne.symm (Nat.ne_of_lt (sound.held id t held).begun))
  | dropped held' free =>
    exact ⟨t, (SortedMap.find?_erase_of_ne _ fun hsame => spared hsame.symm).trans held, active⟩
  | performed held' free => exact hoperated within held'
  | @attached other o u held' free =>
    have within' : (Op.attachTo ⟨c.nextHandle⟩ o).Within good := within
    exact hoperated within' held'
  | ended held' which hasEnded =>
    refine hother _ fun hsame => spared ?_
    rcases which with rfl | rfl | rfl <;> exact hsame
  | published held' free active' closed collected rest tSound due nonempty unconflicted version
      handles => exact hother _ spared
  | suspended held' waiting | woken held' waiting => exact hother _ spared

/-- A transaction stays inside its call while it is not told to go on. -/
theorem call_of_call {call : InCall} (moves : Moves good c a log c') (spared : ¬ a.Closes id)
    (calling : c.calls.find? id = some call) : c'.calls.find? id = some call := by
  have hinsert : ∀ {other : TxnId} (call' : InCall), other ≠ id →
      (c.calls.insert other call').find? id = some call := fun call' hne =>
    (SortedMap.find?_insert_of_ne _ _ (Ne.symm hne)).trans calling
  have herase : ∀ {other : TxnId}, other ≠ id → (c.calls.erase other).find? id = some call :=
    fun hne => (SortedMap.find?_erase_of_ne _ (Ne.symm hne)).trans calling
  cases moves with
  | ended held' which hasEnded =>
    refine herase fun hsame => spared ?_
    rcases which with rfl | rfl | rfl <;> exact hsame
  | published held' free active' closed collected rest tSound due nonempty unconflicted version
      handles => exact hinsert _ spared
  | parked held' active' free => exact hinsert _ spared
  | suspended held' waiting => exact hinsert _ spared
  | woken held' waiting => exact herase spared
  | _ => exact calling

/-- A transaction stays outside of calls while it is not told to begin one. -/
theorem free_of_free (moves : Moves good c a log c') (spared : ¬ a.Closes id)
    (free : c.calls.find? id = none) : c'.calls.find? id = none := by
  have hinsert : ∀ {other : TxnId} (call : InCall), other ≠ id →
      (c.calls.insert other call).find? id = none := fun call hne =>
    (SortedMap.find?_insert_of_ne _ _ (Ne.symm hne)).trans free
  have herase : ∀ {other : TxnId}, (c.calls.erase other).find? id = none := fun {other} => by
    by_cases hsame : id = other
    · rw [hsame, SortedMap.find?_erase_self]
    · rw [SortedMap.find?_erase_of_ne _ hsame, free]
  cases moves with
  | ended held' which hasEnded => exact herase
  | published held' free active' closed collected rest tSound due nonempty unconflicted version
      handles => exact hinsert _ spared
  | parked held' active' free => exact hinsert _ spared
  | suspended held' waiting => exact hinsert _ spared
  | woken held' waiting => exact herase
  | _ => exact free

/-- What an action publishes is published by the transaction that it is about, which is held. -/
theorem held_of_published {T : Committed} (moves : Moves good c a log c') (published : log = some T) :
    a = .publish T.id ∧ ∃ t, c.held.find? T.id = some t := by
  cases moves with
  | published held' free active closed collected rest tSound due nonempty unconflicted version
      handles =>
    cases published
    exact ⟨rfl, _, held'⟩
  | _ => cases published

end Core.Moves

namespace Session

variable {s : Session} {actions : List Action} {id : TxnId} {t : Transaction}

theorem run_append (first second : List Action) (s : Session) :
    s.run (first ++ second) = (s.run first).run second := List.foldl_append

theorem commits_append (first second : List Action) (s : Session) :
    commits (first ++ second) s = commits first s ++ commits second (s.run first) := by
  induction first generalizing s with
  | nil => rfl
  | cons a later ih =>
    rw [List.cons_append, commits, commits, ih, List.append_assoc]
    rfl

theorem sound_run_any (sound : s.core.Sound fun _ => True) (actions : List Action) :
    (s.run actions).core.Sound fun _ => True :=
  sound_run (fun a _ => a.within_any) sound

theorem next_le_run (sound : s.core.Sound fun _ => True) (actions : List Action) :
    s.engine.store.nextTransaction ≤ (s.run actions).engine.store.nextTransaction := by
  induction actions generalizing s with
  | nil => exact Nat.le_refl _
  | cons a later ih =>
    exact Nat.le_trans (moves sound a).next_le (ih (sound_step a.within_any sound))

theorem held_run (sound : s.core.Sound fun _ => True) (kept : .drop id ∉ actions)
    (held : ∃ t, s.engine.held.find? id = some t) :
    ∃ t, (s.run actions).engine.held.find? id = some t := by
  induction actions generalizing s with
  | nil => exact held
  | cons a later ih =>
    rw [List.mem_cons, not_or] at kept
    exact ih (sound_step a.within_any sound) kept.2
      ((moves sound a).held_of_held (Ne.symm kept.1) held)

theorem active_run (sound : s.core.Sound fun _ => True) (spared : ∀ a ∈ actions, ¬ a.Closes id)
    (held : s.engine.held.find? id = some t) (active : t.status = .active) :
    ∃ t', (s.run actions).engine.held.find? id = some t' ∧ t'.status = .active := by
  induction actions generalizing s t with
  | nil => exact ⟨t, held, active⟩
  | cons a later ih =>
    obtain ⟨t', held', active'⟩ := (moves sound a).active_of_active a.within_any sound
      (spared a List.mem_cons_self) held active
    exact ih (sound_step a.within_any sound) (fun b hb => spared b (List.mem_cons_of_mem _ hb))
      held' active'

theorem calling_run {call : InCall} (sound : s.core.Sound fun _ => True)
    (spared : ∀ a ∈ actions, ¬ a.Closes id) (calling : s.calls.find? id = some call) :
    (s.run actions).calls.find? id = some call := by
  induction actions generalizing s with
  | nil => exact calling
  | cons a later ih =>
    exact ih (sound_step a.within_any sound) (fun b hb => spared b (List.mem_cons_of_mem _ hb))
      ((moves sound a).call_of_call (spared a List.mem_cons_self) calling)

theorem free_run (sound : s.core.Sound fun _ => True) (spared : ∀ a ∈ actions, ¬ a.Closes id)
    (free : s.calls.find? id = none) : (s.run actions).calls.find? id = none := by
  induction actions generalizing s with
  | nil => exact free
  | cons a later ih =>
    exact ih (sound_step a.within_any sound) (fun b hb => spared b (List.mem_cons_of_mem _ hb))
      ((moves sound a).free_of_free (spared a List.mem_cons_self) free)

/-- Who has been let go of does not come back. -/
theorem absent_run (sound : s.core.Sound fun _ => True) (absent : s.engine.held.find? id = none)
    (used : id < s.engine.store.nextTransaction) (actions : List Action) :
    (s.run actions).engine.held.find? id = none := by
  induction actions generalizing s with
  | nil => exact absent
  | cons a later ih =>
    have hmoves := moves sound a
    refine ih (sound_step a.within_any sound) ?_ (Nat.lt_of_lt_of_le used hmoves.next_le)
    cases hfound : (s.step a).engine.held.find? id with
    | none => rfl
    | some t =>
      rcases hmoves.held_or_begun hfound with ⟨u, hu⟩ | hnext
      · rw [show s.engine.held.find? id = some u from hu] at absent
        cases absent
      · exact absurd hnext (Nat.ne_of_lt used)

/-- A commit is published by a transaction that is held then. -/
theorem commits_held {T : Committed} (sound : s.core.Sound fun _ => True)
    (published : T ∈ commits actions s) : ∃ before later t, actions = before ++ .publish T.id :: later ∧
      (s.run before).engine.held.find? T.id = some t := by
  induction actions generalizing s with
  | nil => cases published
  | cons a later ih =>
    rcases List.mem_append.mp published with hnow | hlater
    · obtain ⟨rfl, t, held⟩ := (moves sound a).held_of_published (Option.mem_toList.mp hnow)
      exact ⟨[], later, t, rfl, held⟩
    · obtain ⟨before, rest, t, rfl, held⟩ := ih (sound_step a.within_any sound) hlater
      exact ⟨a :: before, rest, t, rfl, held⟩

theorem publish_mem_of_commits {T : Committed} (sound : s.core.Sound fun _ => True)
    (published : T ∈ commits actions s) : .publish T.id ∈ actions := by
  obtain ⟨before, later, t, rfl, -⟩ := commits_held sound published
  exact List.mem_append_right _ List.mem_cons_self

/-- Whoever is held at some point of a run has a number that is given out by its end, and was held at
its beginning unless the number was not given out then. -/
theorem present_of_held {before later : List Action} (sound : s.core.Sound fun _ => True)
    (held : (s.run before).engine.held.find? id = some t) :
    id < (s.run (before ++ later)).engine.store.nextTransaction ∧
      (id < s.engine.store.nextTransaction → ∃ t, s.engine.held.find? id = some t) := by
  have hbefore := sound_run_any sound before
  refine ⟨?_, fun used => ?_⟩
  · rw [run_append]
    exact Nat.lt_of_lt_of_le (hbefore.held id t held).begun (next_le_run hbefore _)
  · cases hfound : s.engine.held.find? id with
    | none =>
      rw [absent_run sound hfound used before] at held
      cases held
    | some u => exact ⟨u, rfl⟩

/-- Whoever publishes in a run is there in it. -/
theorem commits_present {T : Committed} (sound : s.core.Sound fun _ => True)
    (published : T ∈ commits actions s) :
    T.id < (s.run actions).engine.store.nextTransaction ∧
      (T.id < s.engine.store.nextTransaction → ∃ t, s.engine.held.find? T.id = some t) := by
  obtain ⟨before, later, t, rfl, held⟩ := commits_held sound published
  exact present_of_held sound held

end Session

end TransactionalHeap
