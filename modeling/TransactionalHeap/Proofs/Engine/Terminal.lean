import TransactionalHeap.Proofs.Engine.Presence

/-!
# Ended transactions stay as they are

A transaction that has ended has no branches left, so there is nothing that an action could still
change about it: while it is held it is the same in every session that follows
(`Session.ended_run`).
-/
namespace TransactionalHeap

variable [Transactables]

namespace Transaction

variable {t : Transaction}

/-- Nothing is left of the transaction that an operation could change. -/
structure Final (t : Transaction) : Prop where
  inactive : t.status ≠ .active
  frames : t.frames = []

theorem Final.after_eq (final : t.Final) (op : Op) : op.run.after t = t := by
  rcases after_of_ended final.inactive op with hstill | rfl
  · exact hstill
  · have hdropped : (Op.dropFrame).run.after t = { t with frames := t.frames.tail } := rfl
    rw [hdropped, final.frames, List.tail_nil, ← final.frames]

/-- What has ended has no branches left, and no operation opens one. -/
theorem final_of_operated {good : Object → Prop} {op : Op} (within : op.Within good)
    (sound : t.Sound good) (old : t.status ≠ .active → t.Final)
    (inactive : (op.run.after t).status ≠ .active) : (op.run.after t).Final := by
  obtain ⟨hrest, -⟩ := performs_soundly within sound
  have hended : t.status ≠ .active := by rwa [hrest] at inactive
  rw [(old hended).after_eq op]
  exact old hended

end Transaction

namespace Session

variable {good : Object → Prop} {s s' : Session} {a : Action} {log : Option Committed} {id : TxnId}
  {t : Transaction}

/-- No transaction that has ended has branches left. -/
def EndedFinal (s : Session) : Prop :=
  ∀ id t, s.engine.held.find? id = some t → t.status ≠ .active → t.Final

/-- It is enough to look at the transaction that is put in place. -/
theorem EndedFinal.insert (final : s.EndedFinal) {u : Transaction}
    (held : s'.engine.held = s.engine.held.insert id u) (new : u.status ≠ .active → u.Final) :
    s'.EndedFinal := by
  intro other t hfound
  rw [held] at hfound
  rcases SortedMap.find?_of_insert hfound with ⟨-, rfl⟩ | ⟨-, hold⟩
  · exact new
  · exact final other t hold

/-- A transaction that ends keeps no branch. -/
theorem EndedFinal.endWith (final : s.EndedFinal) {store : Store} {marked : Transaction}
    {status : TransactionStatus} (engine : s'.engine = s.engine.endWith id store marked status) :
    s'.EndedFinal :=
  final.insert (u := marked.finish status) (by rw [engine]; rfl) fun hended => ⟨hended, rfl⟩

theorem Effect.endedFinal (effect : Effect s a log s') (within : a.Within good)
    (sound : s.core.Sound good) (final : s.EndedFinal) : s'.EndedFinal := by
  have hactive : ∀ {u : Transaction}, u.status = .active → u.status ≠ .active → u.Final :=
    fun active hended => absurd active hended
  cases effect with
  | nothing | usedHandle | parked | unparked => exact final
  | began which => exact final.insert rfl (hactive rfl)
  | dropped held free => exact fun other u hu => final other u (SortedMap.find?_of_erase hu).2
  | @performed id op t held free =>
    exact final.insert rfl (Transaction.final_of_operated within (sound.held id t held).sound
      (final id t held))
  | @attached id o t held free =>
    have hwithin : (Op.attachTo ⟨s.engine.nextHandle⟩ o).Within good := within
    exact final.insert rfl (Transaction.final_of_operated hwithin (sound.held id t held).sound
      (final id t held))
  | aborted | unchanged | lockedOut | conflicted | concluded => exact final.endWith rfl
  | published ready => exact final.insert rfl (hactive ready.active)
  | suspended held calling =>
    obtain ⟨active, -⟩ := sound.calls_held held calling
    exact final.insert rfl (hactive active)
  | woken held calling =>
    obtain ⟨active, -⟩ := sound.calls_held held calling
    exact final.insert rfl (hactive active)

/-- No action changes a transaction that has ended, except that it may let go of it. -/
theorem Effect.keeps_final (effect : Effect s a log s') (sound : s.core.Sound good)
    (held : s.engine.held.find? id = some t) (final : t.Final) :
    s'.engine.held.find? id = some t ∨ s'.engine.held.find? id = none := by
  have hother : ∀ {other : TxnId} (u : Transaction), other ≠ id →
      (s.engine.held.insert other u).find? id = some t := fun u hne =>
    (SortedMap.find?_insert_of_ne _ _ (Ne.symm hne)).trans held
  have hactive : ∀ {other : TxnId} {u : Transaction}, s.engine.held.find? other = some u →
      u.status = .active → other ≠ id := by
    rintro other u hu active rfl
    rw [held] at hu
    cases hu
    exact final.inactive active
  have hoperated : ∀ {other : TxnId} {u : Transaction} (op : Op), s.engine.held.find? other = some u →
      (s.engine.held.insert other (op.run.after u)).find? id = some t := by
    intro other u op hu
    by_cases hsame : other = id
    · subst hsame
      rw [held] at hu
      cases hu
      rw [final.after_eq op, SortedMap.find?_insert_self]
    · exact hother _ hsame
  cases effect with
  | nothing | usedHandle | parked | unparked => exact .inl held
  | began which => exact .inl (hother _ (Ne.symm (Nat.ne_of_lt (sound.held id t held).begun)))
  | @dropped other u hu free =>
    by_cases hsame : id = other
    · exact .inr (hsame ▸ SortedMap.find?_erase_self _ _)
    · exact .inl ((SortedMap.find?_erase_of_ne _ hsame).trans held)
  | performed hu free => exact .inl (hoperated _ hu)
  | attached hu free => exact .inl (hoperated _ hu)
  | aborted hu free active => exact .inl (hother _ (hactive hu active))
  | unchanged ready | lockedOut ready | conflicted ready | published ready =>
    exact .inl (hother _ (hactive ready.held ready.active))
  | concluded hu calling | suspended hu calling | woken hu calling =>
    exact .inl (hother _ (hactive hu (sound.calls_held hu calling).active))

theorem endedFinal_run (sound : s.core.Sound fun _ => True) (final : s.EndedFinal)
    (actions : List Action) : (s.run actions).EndedFinal :=
  kept_run (fun _ _ _ _ effect => effect.endedFinal) (fun a _ => a.within_any) sound final

/-- Whatever goes on, a transaction that has ended stays as it is until it is let go of. -/
theorem ended_run (sound : s.core.Sound fun _ => True) (held : s.engine.held.find? id = some t)
    (final : t.Final) (actions : List Action) :
    (s.run actions).engine.held.find? id = some t ∨ (s.run actions).engine.held.find? id = none := by
  induction actions generalizing s with
  | nil => exact .inl held
  | cons a later ih =>
    have hsound := sound_step a.within_any sound
    rcases (effect sound a).keeps_final sound held final with hkept | hgone
    · exact ih hsound hkept
    · have hused := Nat.lt_of_lt_of_le (sound.held id t held).begun (moves sound a).next_le
      exact .inr (absent_run hsound hgone hused later)

theorem endedFinal_reached (config : Config) (actions : List Action) :
    ((ofConfig config).run actions).EndedFinal :=
  endedFinal_run (sound_ofConfig config) (fun _ _ hfound => by cases hfound) actions

end Session

end TransactionalHeap
