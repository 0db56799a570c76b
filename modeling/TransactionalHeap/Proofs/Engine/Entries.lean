import TransactionalHeap.Proofs.Engine.Invariant
import TransactionalHeap.Proofs.Transaction.Failing

/-!
# Entries of every session

Commits write revisions of objects and nothing else, so whatever is found in a heap names the
materializer of its own type. The entries of every transaction are then well formed, and so are
those of a table that takes its records from heaps or stamps new ones (`Session.entries_well_formed`).
-/
namespace TransactionalHeap

variable [Transactables] {good : Object → Prop}

theorem PendingRecord.Of.materializer_eq {w : PendingRecord} (of : w.Of good) :
    w.materializer = ⟨w.type⟩ := by
  obtain ⟨o, -, heq⟩ := of
  rw [heq]
  rfl

theorem Core.Moves.writes_of {c c' : Core} {a : Action} {T : Committed}
    (moves : Moves good c a (some T) c') : ∀ w ∈ T.writes, w.Of good := by
  cases moves with
  | published held free active closed collected rest sound due =>
    intro w hw
    obtain ⟨o, hdue⟩ := due w hw
    exact ⟨o, hdue.isGood, hdue.eq⟩

namespace Session

/-- Every commit of a run writes revisions of good objects. -/
theorem of_mem_commits {actions : List Action} {s : Session} (within : ∀ a ∈ actions, a.Within good)
    (sound : s.core.Sound good) {T : Committed} (hT : T ∈ commits actions s) :
    ∀ w ∈ T.writes, w.Of good := by
  induction actions generalizing s with
  | nil => cases hT
  | cons a later ih =>
    rw [commits, List.mem_append, Option.mem_toList] at hT
    rcases hT with hnow | hlater
    · have hmoves := moves sound a
      rw [hnow] at hmoves
      exact hmoves.writes_of
    · exact ih (fun b hb => within b (List.mem_cons_of_mem _ hb))
        (sound_step (within a List.mem_cons_self) sound) hlater

end Session

/-- Where records come from: an object is flattened and the revision stamped, or a commit of some run
published it and a snapshot shows it. -/
inductive Record.Genuine : Record → Prop
  | stamped (h : Handle) (o : Object) (v : Version) : Genuine ((PendingRecord.ofObject h o).stamp v)
  | published (config : Config) (actions : List Action) {past : Snapshot}
      (hpast : past ∈ ((Session.ofConfig config).run actions).engine.store.heap.head.chain)
      {h : Handle} {r : Record} (stored : past.read h = some r) : Genuine r

theorem Record.Genuine.proper {r : Record} (genuine : r.Genuine) : r.Proper r.handle := by
  cases genuine with
  | stamped h o v => exact ⟨rfl, rfl⟩
  | @published config actions past hpast h r stored =>
    have hstores := (Session.sound_reached config actions).stores hpast
    exact ⟨rfl, (hstores.proper stored).materializer⟩

/-- The entries of every transaction of a session, and what its branches have captured, are well
formed. So the transaction can go on and be committed, and all that commits publish names the
materializer of its own type. The same holds of tables of entries, whatever is done to them. -/
theorem Session.entries_well_formed :
    (∀ (config : Config) (actions : List Action),
      let s := (ofConfig config).run actions
      (∀ id t, s.engine.held.find? id = some t → t.table.WellFormed ∧ t.Usable) ∧
      (∀ T ∈ commits actions (ofConfig config), ∀ w ∈ T.writes, w.materializer = ⟨w.type⟩) ∧
      ∀ past ∈ s.engine.store.heap.head.chain, ∀ h r, past.read h = some r → r.Proper h) ∧
    ∀ ops : List EntryOp, (∀ r, .deferred r ∈ ops → r.Genuine) →
      (EntryTable.run ops).WellFormed ∧ (EntryTable.run ops).Usable := by
  refine ⟨fun config actions => ?_, fun ops genuine => ?_⟩
  · have hsound := sound_reached config actions
    refine ⟨fun id t held => ?_, fun T hT w hw => ?_, fun past hpast h r stored => ?_⟩
    · have htransaction := (hsound.held id t held).sound
      exact ⟨htransaction.table, htransaction.usable⟩
    · have hof : ∀ w ∈ T.writes, w.Of fun _ => True :=
        of_mem_commits (fun a _ => a.within_any) (sound_ofConfig config) hT
      exact (hof w hw).materializer_eq
    · exact (hsound.stores hpast).proper stored
  · have hwf := EntryTable.wellFormed_run fun r hr => (genuine r hr).proper
    exact ⟨hwf, hwf.usable⟩

end TransactionalHeap
