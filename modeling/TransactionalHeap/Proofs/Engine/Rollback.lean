import TransactionalHeap.Object.Stock
import TransactionalHeap.Proofs.Engine.Committing
import TransactionalHeap.Proofs.Engine.Entries

/-!
# Rollbacks that fail

A rollback gives the entries up before it rebuilds the saved ones. It fails just where an object that
the branch has saved cannot be rebuilt from its fields. Then nothing is left of the transaction but its
outer branches: it waits for nothing, it has nothing to write, and a commit succeeds all the same
(`Session.failed_rollback_forgets`).
-/
namespace TransactionalHeap

section

variable [Transactables]

/-- The branch has saved an object that cannot be rebuilt from its fields, by this fault. -/
def Frame.Loses (f : Frame) (fault : Error) : Prop :=
  ∃ h saved fields, f.saved.find? h = some saved ∧ saved.state = some fields ∧
    saved.materializer.run fields = .error fault

/-- The only well-formed entries that are not brought back are those whose object cannot be rebuilt. -/
theorem SavedEntry.WellFormed.restore_eq_error {h : Handle} {saved : SavedEntry} {fault : Error}
    (wf : saved.WellFormed h) : saved.restore h = .error fault ↔
      ∃ fields, saved.state = some fields ∧ saved.materializer.run fields = .error fault := by
  have hrun : ∀ fields, saved.state = some fields → saved.restore h =
      (saved.materializer.run fields).map fun o =>
        ⟨h, some o, saved.origin, saved.materializer, saved.status⟩ := by
    intro fields hstate
    simp only [SavedEntry.restore, hstate]
    rfl
  constructor
  · intro hfault
    cases hstate : saved.state with
    | some fields =>
      refine ⟨fields, rfl, ?_⟩
      rw [hrun fields hstate] at hfault
      cases hobject : saved.materializer.run fields with
      | ok o =>
        rw [hobject] at hfault
        cases hfault
      | error cause =>
        rw [hobject] at hfault
        cases hfault
        rfl
    | none =>
      rcases wf.restore with ⟨e, hok, -⟩ | ⟨cause, hcause⟩
      · rw [hok] at hfault
        cases hfault
      · cases horigin : saved.origin <;>
          simp [SavedEntry.restore, hstate, horigin] at hcause
  · rintro ⟨fields, hstate, hobject⟩
    rw [hrun fields hstate, hobject]
    rfl

/-- A branch that loses no object is rolled back. One that does fails and leaves no entries, whatever
was there. -/
theorem EntryTable.WellFormed.restore_cases {s : EntryTable} {f : Frame} (wf : s.WellFormed)
    (isCaptured : f ∈ s.captured) :
    ((∀ fault, ¬ f.Loses fault) ∧ ∃ entries, f.restore s.entries = .ok () entries) ∨
    ∃ fault, f.Loses fault ∧ f.restore s.entries = .error fault ∅ := by
  have hf := wf.captured f isCaptured
  cases hrebuilt : f.saved.traverse SavedEntry.restore with
  | error fault =>
    obtain ⟨h, saved, hsaved, hfault⟩ := SortedMap.error_of_traverse hrebuilt
    obtain ⟨fields, hstate, hobject⟩ := (hf h saved hsaved).restore_eq_error.mp hfault
    exact .inr ⟨fault, ⟨h, saved, fields, hsaved, hstate, hobject⟩, by rw [Frame.restore, hrebuilt]⟩
  | ok rebuilt =>
    refine .inl ⟨?_, _, by rw [Frame.restore, hrebuilt]⟩
    rintro fault ⟨h, saved, fields, hsaved, hstate, hobject⟩
    have hfault := (hf h saved hsaved).restore_eq_error.mpr ⟨fields, hstate, hobject⟩
    obtain ⟨e, hok, -⟩ := SortedMap.find?_traverse hrebuilt hsaved
    rw [hok] at hfault
    cases hfault

namespace Transaction

variable {good : Object → Prop} {t : Transaction} {f : Frame} {outer : List Frame}

/-- The transaction once a rollback has failed. -/
def emptied (t : Transaction) (outer : List Frame) : Transaction :=
  { t with entries := ∅, frames := outer }

theorem Sound.emptied (sound : t.Sound good) (opened : t.frames = f :: outer) :
    (t.emptied outer).Sound good where
  stores := sound.stores
  entries h e he := by cases he
  frames g hg := sound.frames g (by rw [opened]; exact List.mem_cons_of_mem _ hg)

/-- How a rollback ends. -/
theorem Sound.endOrElse_cases (sound : t.Sound good) (active : t.status = .active)
    (opened : t.frames = f :: outer) :
    ((∀ fault, ¬ f.Loses fault) ∧ ∃ entries, f.restore t.entries = .ok () entries ∧
      endOrElse t = .ok () { t with entries, frames := outer }) ∨
    ∃ fault, f.Loses fault ∧ f.restore t.entries = .error fault ∅ ∧
      endOrElse t = .error fault (t.emptied outer) := by
  have isCaptured : f ∈ t.table.captured := by
    change f ∈ t.frames
    rw [opened]
    exact List.mem_cons_self
  have hrun := endOrElse_eq active opened
  rcases sound.table.restore_cases isCaptured with
    ⟨lossless, entries, hrestore⟩ | ⟨fault, loses, hrestore⟩
  · change f.restore t.entries = _ at hrestore
    rw [hrestore] at hrun
    exact .inl ⟨lossless, entries, hrestore, hrun⟩
  · change f.restore t.entries = _ at hrestore
    rw [hrestore] at hrun
    exact .inr ⟨fault, loses, hrestore, hrun⟩

/-- Objects that survive flattening are never lost. -/
theorem Sound.lossless (sound : t.Sound good) (faithful : ∀ o, good o → o.Faithful)
    (hf : f ∈ t.frames) (fault : Error) : ¬ f.Loses fault := by
  rintro ⟨h, saved, fields, hsaved, hstate, hobject⟩
  have hsound := sound.frames f hf h saved hsaved
  obtain ⟨e, hok⟩ := hsound.exists_restore sound.stores faithful
  have hfault := (hsound.wellFormed sound.stores).restore_eq_error.mpr ⟨fields, hstate, hobject⟩
  rw [hok] at hfault
  cases hfault

end Transaction

/-- With nothing left to write a commit succeeds, if no branch is open. -/
theorem Engine.commit_emptied {good : Object → Prop} {e : Engine} {id : TxnId} {t : Transaction}
    {f : Frame} {outer : List Frame} (held : e.held.find? id = some (t.emptied outer))
    (sound : t.Sound good) (active : t.status = .active) (opened : t.frames = f :: outer) :
    commit id e = if outer = [] then
        .ok e.store.heap.version (e.endWith id (e.store.committedNothing id) (t.emptied outer)
          (.committed e.store.heap.version))
      else .error (.invalidOperation (.openBranches outer.length)) e := by
  split
  · next hclosed =>
    have hbegin := beginCommit_of_sound held active hclosed (sound.emptied opened)
    exact bind_of_ok hbegin
  · next hopen =>
    refine bind_of_error (beginCommit_of_open held active ?_)
    exact fun hnone => hopen (List.length_eq_zero_iff.mp hnone)

namespace Session

/-- How the rollback of the innermost branch of a transaction ends, in every session: it succeeds if
every saved object can be rebuilt, and that is so as long as only objects come in that survive
flattening. Otherwise the entries are lost, all of them, and what was read and buffered with them. The
outer branches stay, and once there are none the next commit succeeds and publishes nothing. Any other
table of entries is lost in the same way. -/
theorem failed_rollback_forgets (config : Config) (actions : List Action) {id : TxnId}
    {t : Transaction} {f : Frame} {outer : List Frame}
    (held : ((ofConfig config).run actions).engine.held.find? id = some t)
    (active : t.status = .active) (opened : t.frames = f :: outer) :
    let e := ((ofConfig config).run actions).engine
    let left := { e with held := e.held.insert id (t.emptied outer) }
    ((∀ a ∈ actions, a.Within Object.Faithful) → ∀ fault, ¬ f.Loses fault) ∧
    ((∀ fault, ¬ f.Loses fault) → ∃ entries, f.restore t.entries = .ok () entries ∧
      Engine.on id Transaction.endOrElse e =
        .ok () { e with held := e.held.insert id { t with entries, frames := outer } }) ∧
    ((∃ fault, f.Loses fault) → ∃ fault, f.Loses fault ∧ f.restore t.entries = .error fault ∅ ∧
      Engine.on id Transaction.endOrElse e = .error fault left ∧
      (t.emptied outer).readSet = [] ∧ (t.emptied outer).writeCount = 0 ∧
      Engine.commit id left = if outer = [] then
          .ok e.store.heap.version (left.endWith id (e.store.committedNothing id) (t.emptied outer)
            (.committed e.store.heap.version))
        else .error (.invalidOperation (.openBranches outer.length)) left) ∧
    ∀ ops : List EntryOp, (∀ r, .deferred r ∈ ops → r.Genuine) → ∀ g ∈ (EntryTable.run ops).captured,
      ((∀ fault, ¬ g.Loses fault) ∧
        ∃ entries, g.restore (EntryTable.run ops).entries = .ok () entries) ∨
      ∃ fault, g.Loses fault ∧ g.restore (EntryTable.run ops).entries = .error fault ∅ := by
  intro e left
  have hsound := ((sound_reached config actions).held id t held).sound
  refine ⟨fun within fault => ?_, fun lossless => ?_, fun ⟨cause, loses⟩ => ?_,
    fun ops genuine g isCaptured => ?_⟩
  · have hfaithful := ((sound_run within (sound_ofConfig config)).held id t held).sound
    exact hfaithful.lossless (fun _ ho => ho) (by rw [opened]; exact List.mem_cons_self) fault
  · rcases hsound.endOrElse_cases active opened with
      ⟨-, entries, hrestore, hrun⟩ | ⟨fault, loses, -⟩
    · exact ⟨entries, hrestore, Engine.on_of_ok held hrun⟩
    · exact absurd loses (lossless fault)
  · rcases hsound.endOrElse_cases active opened with ⟨lossless, -⟩ | ⟨fault, loses, hrestore, hrun⟩
    · exact absurd loses (lossless cause)
    · exact ⟨fault, loses, hrestore, Engine.on_of_error held hrun, rfl, rfl,
        Engine.commit_emptied (SortedMap.find?_insert_self _ _ _) hsound active opened⟩
  · exact (EntryTable.wellFormed_run fun r hr => (genuine r hr).proper).restore_cases isCaptured

end Session

end

namespace Session

/-- A transaction has read a counter and attached an object that does not survive flattening, and has
opened a branch. -/
def leakyBranch : List Action :=
  [.begin, .attach 1 (.counter 5), .publish 1, .conclude 1, .begin, .perform 2 (.read .counter ⟨1⟩),
    .attach 2 (.leaky [.string "x"]), .perform 2 .startOr]

theorem failed_rollback_forgets_sample :
    let e := ((ofConfig {}).run leakyBranch).engine
    ∃ t f, e.held.find? 2 = some t ∧ t.status = .active ∧ t.frames = [f] ∧ ∃ fault left after,
      f.Loses fault ∧ Engine.on 2 Transaction.endOrElse e = .error fault left ∧
      Engine.commit 2 left = .ok 1 after := by
  intro e
  obtain ⟨t, held⟩ := Option.isSome_iff_exists.mp (by decide +kernel : (e.held.find? 2).isSome = true)
  have hopen : (e.held.find? 2).map (fun t => (t.status, t.frames.length)) = some (.active, 1) := by
    decide +kernel
  rw [held] at hopen
  obtain ⟨active, hlength⟩ := Prod.mk.inj (Option.some.inj hopen)
  obtain ⟨f, opened⟩ := List.length_eq_one_iff.mp hlength
  obtain ⟨-, hkept, hlost, -⟩ := failed_rollback_forgets {} leakyBranch held active opened
  have hfails : ((Engine.on 2 Transaction.endOrElse).result e).1.toOption = none := by decide +kernel
  have hloses : ∃ fault, f.Loses fault := by
    by_contra hnone
    obtain ⟨entries, -, hrun⟩ := hkept fun fault loses => hnone ⟨fault, loses⟩
    rw [Step.result_of_ok hrun] at hfails
    cases hfails
  obtain ⟨fault, loses, -, hrun, -, -, hcommit⟩ := hlost hloses
  exact ⟨t, f, held, active, opened, fault, _, _, loses, hrun, hcommit⟩

/-- What was read and what was attached is gone after the rollback, and the commit does not notice. -/
theorem failed_rollback_loses_entries :
    let e := ((ofConfig {}).run leakyBranch).engine
    let left := (Engine.on 2 Transaction.endOrElse).after e
    let holdings : Engine → Option (List Handle × List Handle × Nat) := fun e =>
      (e.held.find? 2).map fun t => (t.entries.keys, t.readSet, t.writeCount)
    ((Engine.on 2 Transaction.endOrElse).result e).1.toOption = none ∧
      holdings e = some ([⟨1⟩, ⟨2⟩], [⟨1⟩], 1) ∧ holdings left = some ([], [], 0) ∧
      ((Engine.commit 2).result left).1.toOption = some 1 ∧
      ((Engine.commit 2).after left).store.heap.head.contains ⟨2⟩ = false := by
  decide +kernel

end Session

end TransactionalHeap
