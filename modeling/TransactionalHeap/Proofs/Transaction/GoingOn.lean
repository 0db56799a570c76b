import TransactionalHeap.Proofs.Transaction.Simulation

/-!
# Transactions that go on

While a transaction goes on, what it waits for only grows (`Transaction.Later`). No operation takes an
entry away but a rollback, and a rollback of objects that survive flattening leaves everything that was
read (`Transaction.later_op`).
-/
namespace TransactionalHeap

variable [Transactables]

/-- The snapshot tells the origin of an entry. -/
theorem Entry.Sound.origin_eq {good : Object → Prop} {s : Snapshot} {h : Handle} {e : Entry}
    (sound : e.Sound good s h) : e.origin = s.read h := by
  cases sound with
  | fresh o absent isGood => exact absent.symm
  | loaded r object stored rebuilt => exact stored.symm
  | changed r o stored sameType isGood => exact stored.symm

namespace Transaction

variable {good : Object → Prop} {t t' : Transaction} {h : Handle}

/-! ## What was read stays read -/

theorem mem_readSet_iff : h ∈ t.readSet ↔ ∃ e r, t.entries.find? h = some e ∧ e.origin = some r := by
  simp only [readSet, SortedMap.mem_keys_iff, SortedMap.find?_filter, Option.filter_eq_some_iff,
    Entry.isReadDependency, Option.isSome_iff_exists]
  constructor
  · rintro ⟨e, he, r, hr⟩
    exact ⟨e, r, he, hr⟩
  · rintro ⟨e, r, he, hr⟩
    exact ⟨e, he, r, hr⟩

/-- The snapshot tells which entries are read dependencies. -/
theorem Sound.mem_readSet (sound : t.Sound good) : h ∈ t.readSet ↔
    (∃ e, t.entries.find? h = some e) ∧ ∃ r, t.snapshot.read h = some r := by
  rw [mem_readSet_iff]
  constructor
  · rintro ⟨e, r, he, horigin⟩
    exact ⟨⟨e, he⟩, r, (sound.entries h e he).origin_eq.symm.trans horigin⟩
  · rintro ⟨⟨e, he⟩, r, hread⟩
    exact ⟨e, r, he, (sound.entries h e he).origin_eq.trans hread⟩

/-- A later state of a transaction that has gone on without starting over. -/
structure Later (t t' : Transaction) : Prop where
  rest : t' = { t with entries := t'.entries, frames := t'.frames }
  reads : ∀ h ∈ t.readSet, h ∈ t'.readSet

namespace Later

theorem refl (t : Transaction) : Later t t := ⟨rfl, fun _ hmem => hmem⟩

theorem trans {t₁ : Transaction} (first : Later t t₁) (second : Later t₁ t') : Later t t' where
  rest := by rw [second.rest, first.rest]
  reads h hmem := second.reads h (first.reads h hmem)

theorem status_eq (later : Later t t') : t'.status = t.status := by rw [later.rest]

theorem snapshot_eq (later : Later t t') : t'.snapshot = t.snapshot := by rw [later.rest]

/-- It is enough that no entry has gone. -/
theorem of_kept (sound : t.Sound good) (sound' : t'.Sound good)
    (rest : t' = { t with entries := t'.entries, frames := t'.frames })
    (kept : ∀ h e, t.entries.find? h = some e → ∃ e', t'.entries.find? h = some e') : Later t t' where
  rest := rest
  reads h hmem := by
    obtain ⟨⟨e, he⟩, hread⟩ := sound.mem_readSet.mp hmem
    have hsnapshot : t'.snapshot = t.snapshot := by rw [rest]
    exact sound'.mem_readSet.mpr ⟨kept h e he, hsnapshot ▸ hread⟩

end Later

/-- Whichever way the step ends, no entry has gone. -/
def KeepsEntries {α : Type} (step : Step Transaction α) : Prop :=
  ∀ t h e, t.entries.find? h = some e → ∃ e', (step.after t).entries.find? h = some e'

namespace KeepsEntries

variable {α β : Type} {step : Step Transaction α}

theorem keeps (keeps : KeepsEntries step) (h : Handle) :
    Step.Keeps (fun t => ∃ e, t.entries.find? h = some e) step :=
  fun t ⟨e, he⟩ => keeps t h e he

theorem of_keeps (keeps : ∀ h, Step.Keeps (fun t => ∃ e, t.entries.find? h = some e) step) :
    KeepsEntries step :=
  fun t h e he => keeps h t ⟨e, he⟩

theorem bind {first : Step Transaction α} {next : α → Step Transaction β}
    (hfirst : KeepsEntries first) (hnext : ∀ a, KeepsEntries (next a)) :
    KeepsEntries (first >>= next) :=
  of_keeps fun h => (hfirst.keeps h).bind fun a => (hnext a).keeps h

theorem pure (a : α) : KeepsEntries (Pure.pure a : Step Transaction α) := of_keeps fun _ => .pure a

theorem fail (fault : Error) : KeepsEntries (throw fault : Step Transaction α) :=
  of_keeps fun _ => .fail fault

theorem get : KeepsEntries (MonadState.get : Step Transaction Transaction) := of_keeps fun _ => .get

theorem ofExcept (r : Except Error α) : KeepsEntries (Step.ofExcept r) := of_keeps fun _ => .ofExcept r

theorem ensureActive : KeepsEntries ensureActive := of_keeps fun _ => keeps_ensureActive

theorem setEntry (h : Handle) (e : Entry) : KeepsEntries (setEntry h e) := by
  intro t other old hold
  by_cases hsame : other = h
  · subst hsame
    exact ⟨e, SortedMap.find?_insert_self _ _ _⟩
  · exact ⟨old, (SortedMap.find?_insert_of_ne _ _ hsame).trans hold⟩

theorem modify (h : Handle) (change : Entry → Entry) :
    KeepsEntries (modify fun t => { t with entries := t.entries.modify h change }) := by
  intro t other e he
  change ∃ e', (t.entries.modify h change).find? other = some e'
  rw [SortedMap.find?_modify, he]
  split
  · exact ⟨change e, rfl⟩
  · exact ⟨e, rfl⟩

theorem entry (h : Handle) : KeepsEntries (entry h) := by
  apply get.bind
  intro t
  split
  · exact pure _
  · split
    · exact fail _
    · exact (setEntry _ _).bind fun _ => pure _

theorem openEntry (h : Handle) : KeepsEntries (openEntry h) :=
  (entry h).bind fun _ => (ofExcept _).bind fun _ => (setEntry _ _).bind fun _ => pure _

theorem write (type : ObjectType) (h : Handle) : KeepsEntries (write type h) :=
  ensureActive.bind fun _ => (openEntry h).bind fun _ => (ofExcept _).bind fun _ =>
    (setEntry _ _).bind fun _ => pure _

theorem update (type : ObjectType) (h : Handle) (change : Object → Except Error Object) :
    KeepsEntries (update type h change) :=
  (write type h).bind fun _ => (ofExcept _).bind fun _ => (modify h _).bind fun _ => pure _

theorem attachTo (h : Handle) (o : Object) : KeepsEntries (attachTo h o) := by
  refine ensureActive.bind fun _ => get.bind fun t => ?_
  split
  · exact (ofExcept _).bind fun _ => setEntry _ _
  · split
    · exact (fail _).bind fun _ => setEntry _ _
    · exact setEntry _ _

end KeepsEntries

/-! ## What a rollback leaves -/

/-- A rollback of objects that survive flattening keeps every read dependency. -/
theorem later_endOrElse (faithful : ∀ o, good o → o.Faithful) (sound : t.Sound good)
    (active : t.status = .active) : Later t (endOrElse.after t) := by
  have within : Op.endOrElse.Within good := trivial
  obtain ⟨rest, sound'⟩ := performs_soundly within sound
  cases hframes : t.frames with
  | nil =>
    rw [Step.after_of_error (endOrElse_of_none active hframes)]
    exact .refl t
  | cons f outer =>
    have hrun := endOrElse_eq active hframes
    rcases sound.restore (sound.frames f (hframes ▸ List.mem_cons_self)) with
      ⟨restored, hrestore, -⟩ | ⟨fault, -, hunfaithful⟩
    · refine ⟨rest, fun h hmem => ?_⟩
      obtain ⟨e, r, he, horigin⟩ := mem_readSet_iff.mp hmem
      refine sound'.mem_readSet.mpr ⟨?_, r, ?_⟩
      · rw [hrestore] at hrun
        change ∃ e, (endOrElse.after t).entries.find? h = some e
        rw [Step.after_of_ok hrun]
        cases hsaved : f.saved.find? h with
        | some saved =>
          obtain ⟨e', -, hfound⟩ := find?_restore_saved hrestore hsaved
          exact ⟨e', hfound⟩
        | none =>
          refine ⟨.deferred r, (find?_restore_unsaved hrestore hsaved).trans ?_⟩
          rw [he, Option.bind_some, horigin, Option.map_some]
      · rw [rest]
        exact (sound.entries h e he).origin_stored horigin
    · exact absurd faithful hunfaithful

/-! ## Any operation -/

/-- No operation on objects that survive flattening forgets what was read. -/
theorem later_op (faithful : ∀ o, good o → o.Faithful) {op : Op} (within : op.Within good)
    (sound : t.Sound good) (active : t.status = .active) : Later t (op.run.after t) := by
  obtain ⟨rest, sound'⟩ := performs_soundly within sound
  have hloads : ∀ {t'}, Loads good t t' → Later t t' := fun loads =>
    .of_kept sound loads.sound (by rw [loads.rest]) fun h e he => by
      obtain ⟨e', he', -⟩ := loads.kept h e he
      exact ⟨e', he'⟩
  cases op with
  | read type h =>
    rw [Op.run, Step.after_discard]
    exact hloads (OnlyLoads.read type h t sound)
  | load type h policy =>
    rw [Op.run, Step.after_discard]
    exact hloads (OnlyLoads.load type h policy t sound)
  | write type h =>
    rw [Op.run, Step.after_discard] at rest sound' ⊢
    exact .of_kept sound sound' rest (KeepsEntries.write type h t)
  | update type h change =>
    rw [Op.run, Step.after_discard] at rest sound' ⊢
    exact .of_kept sound sound' rest (KeepsEntries.update type h change t)
  | attachTo h o => exact .of_kept sound sound' rest (KeepsEntries.attachTo h o t)
  | startOr =>
    obtain ⟨f, hcapture, -⟩ := sound.capture
    rw [Op.run, Step.after_of_ok (startOr_eq active hcapture)]
    exact ⟨rfl, fun _ hmem => hmem⟩
  | endOr =>
    rw [Op.run, after_endOr active]
    exact ⟨rfl, fun _ hmem => hmem⟩
  | dropFrame => exact ⟨rfl, fun _ hmem => hmem⟩
  | endOrElse => exact later_endOrElse faithful sound active

end Transaction

end TransactionalHeap
