import TransactionalHeap.Proofs.Transaction.Collecting
import TransactionalHeap.Proofs.Transaction.Simulation

/-!
# Operations and what is rebuilt

Every operation on a sound transaction leaves clean entries only with the objects that their records
rebuild to (`Transaction.Backed.perform`), also a rollback, which puts off rebuilding what was clean.
-/
namespace TransactionalHeap

variable [Transactables]

/-- What was opened for a change is not clean. -/
theorem Entry.getForWrite_ne_clean {e e' : Entry} {o : Object} {type : ObjectType}
    (hrun : e.getForWrite type = .ok (o, e')) : e'.status ≠ .clean := by
  obtain ⟨o', -, hdone⟩ := Except.exists_of_bind_eq_ok hrun
  cases hstatus : e.status <;> (rw [hstatus] at hdone; cases hdone) <;> simp [hstatus]

/-- What is brought back clean is yet to be rebuilt. -/
theorem SavedEntry.Sound.backed_of_restore {good : Object → Prop} {s : Snapshot} {h : Handle}
    {saved : SavedEntry} {e : Entry} (sound : saved.Sound good s h) (hrestore : saved.restore h = .ok e) :
    e.Backed := by
  intro clean r o horigin ho
  cases sound with
  | loaded r' stored =>
    cases hrestore
    cases ho
  | fresh o' absent isGood | changed r' o' stored sameType isGood =>
    obtain ⟨o₁, -, hdone⟩ := Except.exists_of_bind_eq_ok hrestore
    cases hdone
    cases clean

namespace Transaction.Backed

variable {good : Object → Prop} {t : Transaction}

/-- What is opened for a change is an entry that counts as changed. -/
theorem write (backed : t.Backed) (sound : t.Sound good) (active : t.status = .active)
    (type : ObjectType) (h : Handle) :
    ((write type h).after t).Backed ∧ ∀ o t', Transaction.write type h t = .ok o t' →
      ∃ e, t'.entries.find? h = some e ∧ e.status ≠ .clean := by
  have hopened := backed.loads (loads_openEntry sound h)
  have hwrite := write_eq active type h
  cases hrun : openEntry h t with
  | error fault t₁ =>
    rw [Step.after_of_error hrun] at hopened
    rw [hrun] at hwrite
    rw [Step.after_of_error hwrite]
    refine ⟨hopened, fun o t' hok => ?_⟩
    rw [hwrite] at hok
    cases hok
  | ok e t₁ =>
    rw [Step.after_of_ok hrun] at hopened
    rw [hrun] at hwrite
    cases hget : e.getForWrite type with
    | error fault =>
      simp only [hget] at hwrite
      rw [Step.after_of_error hwrite]
      refine ⟨hopened, fun o t' hok => ?_⟩
      rw [hwrite] at hok
      cases hok
    | ok pair =>
      obtain ⟨o, e'⟩ := pair
      simp only [hget] at hwrite
      have changed := Entry.getForWrite_ne_clean hget
      rw [Step.after_of_ok hwrite]
      refine ⟨hopened.put (Entry.backed_of_ne changed), fun o' t' hok => ?_⟩
      rw [hwrite] at hok
      cases hok
      exact ⟨e', find?_put_self, changed⟩

theorem update (backed : t.Backed) (sound : t.Sound good) (active : t.status = .active)
    (type : ObjectType) (h : Handle) (f : Object → Except Error Object) :
    ((update type h f).after t).Backed := by
  obtain ⟨hwritten, hchanged⟩ := backed.write sound active type h
  have hupdate := update_eq type h f t
  cases hrun : Transaction.write type h t with
  | error fault t₁ =>
    rw [Step.after_of_error hrun] at hwritten
    rw [hrun] at hupdate
    rwa [Step.after_of_error hupdate]
  | ok o t₁ =>
    rw [Step.after_of_ok hrun] at hwritten
    rw [hrun] at hupdate
    cases hmade : (f o).bind (·.castTo type) with
    | error fault =>
      simp only [hmade] at hupdate
      rwa [Step.after_of_error hupdate]
    | ok o' =>
      simp only [hmade] at hupdate
      rw [Step.after_of_ok hupdate]
      intro other e he
      by_cases hsame : other = h
      · subst hsame
        obtain ⟨old, hold, changed⟩ := hchanged o t₁ hrun
        rw [SortedMap.find?_modify_self, hold] at he
        cases he
        exact Entry.backed_of_ne changed
      · rw [SortedMap.find?_modify_of_ne _ _ hsame] at he
        exact hwritten other e he

theorem attachTo (backed : t.Backed) (sound : t.Sound good) (active : t.status = .active) (h : Handle)
    (o : Object) : ((attachTo h o).after t).Backed := by
  rcases attachTo_cases sound active h o with ⟨-, hrun⟩ | ⟨-, fault, hrun⟩
  · rw [Step.after_of_ok hrun]
    exact backed.put (Entry.backed_of_ne nofun)
  · rwa [Step.after_of_error hrun]

theorem startOr (backed : t.Backed) (sound : t.Sound good) (active : t.status = .active) :
    (startOr.after t).Backed := by
  obtain ⟨f, hcapture, -⟩ := sound.capture
  rw [Step.after_of_ok (startOr_eq active hcapture)]
  exact backed

theorem endOrElse (backed : t.Backed) (sound : t.Sound good) (active : t.status = .active) :
    (endOrElse.after t).Backed := by
  cases hframes : t.frames with
  | nil => rwa [Step.after_of_error (endOrElse_of_none active hframes)]
  | cons f outer =>
    have hrun := endOrElse_eq active hframes
    cases hrestore : f.restore t.entries with
    | error fault entries =>
      rw [hrestore] at hrun
      rw [Step.after_of_error hrun]
      exact backed_of_empty (empty_of_restore hrestore)
    | ok u entries =>
      rw [hrestore] at hrun
      rw [Step.after_of_ok hrun]
      intro h e he
      rcases entry_of_restore hrestore he with ⟨saved, hsaved, hback⟩ | ⟨old, r, -, -, rfl⟩
      · have hsound := sound.frames f (hframes ▸ List.mem_cons_self) h saved hsaved
        exact hsound.backed_of_restore hback
      · exact Entry.backed_deferred r

/-- Every operation on a sound transaction keeps its entries backed. -/
theorem perform (backed : t.Backed) (sound : t.Sound good) (op : Op) : (op.run.after t).Backed := by
  by_cases active : t.status = .active
  · cases op with
    | read type h =>
      rw [Op.run, Step.after_discard]
      exact backed.loads (OnlyLoads.read type h t sound)
    | write type h =>
      rw [Op.run, Step.after_discard]
      exact (backed.write sound active type h).1
    | update type h f =>
      rw [Op.run, Step.after_discard]
      exact backed.update sound active type h f
    | attachTo h o => exact backed.attachTo sound active h o
    | load type h policy =>
      rw [Op.run, Step.after_discard]
      exact backed.loads (OnlyLoads.load type h policy t sound)
    | startOr => exact backed.startOr sound active
    | endOr =>
      rw [Op.run, after_endOr active]
      exact backed
    | endOrElse => exact backed.endOrElse sound active
    | dropFrame => exact backed
  · rcases after_of_ended active op with hstill | rfl
    · rwa [hstill]
    · exact backed

end Transaction.Backed

end TransactionalHeap
