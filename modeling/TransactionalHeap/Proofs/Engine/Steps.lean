import TransactionalHeap.Engine
import TransactionalHeap.Proofs.Heap.Commit
import TransactionalHeap.Proofs.SortedMap.Lookup
import TransactionalHeap.Proofs.Step

/-!
# What the engine's operations do

One equation for every operation of the engine on a transaction that is held: the result and the
engine it leaves. Whoever reasons about runs needs these and not the operations.
-/
namespace TransactionalHeap

variable [Transactables]

/-! ## What the store is left with -/

namespace Store

variable (s : Store)

@[simp] theorem heap_released (live : Option Version) : (s.released live).heap = s.heap := by
  cases live <;> rfl

@[simp] theorem heap_committedNothing (id : TxnId) : (s.committedNothing id).heap = s.heap := rfl

@[simp] theorem heap_aborted (id : TxnId) (reason : AbortReason) :
    (s.aborted id reason).heap = s.heap := rfl

@[simp] theorem heap_conclude (id : TxnId) (p : Publication) : (s.conclude id p).heap = s.heap := rfl

@[simp] theorem locks_released (live : Option Version) : (s.released live).locks = s.locks := by
  cases live <;> rfl

@[simp] theorem listeners_released (live : Option Version) :
    (s.released live).listeners = s.listeners := by
  cases live <;> rfl

@[simp] theorem nextLatch_released (live : Option Version) :
    (s.released live).nextLatch = s.nextLatch := by
  cases live <;> rfl

theorem lockWrites_eq (id : TxnId) (handles : List Handle) :
    lockWrites id handles s =
      match LockTable.acquire id handles s.config.lockPolicy s.locks with
      | .error e locks => .error e (lockFailed id e { s with locks })
      | .ok guard locks => .ok guard { s with locks } := by
  cases hacquire : LockTable.acquire id handles s.config.lockPolicy s.locks with
  | error e locks =>
    have hlocks : onLocks (LockTable.acquire id handles s.config.lockPolicy) s =
        .error e { s with locks } := by
      simp only [onLocks, hacquire]
    exact (catch_of_error ((bind_of_ok rfl).trans hlocks)).trans rfl
  | ok guard locks =>
    have hlocks : onLocks (LockTable.acquire id handles s.config.lockPolicy) s =
        .ok guard { s with locks } := by
      simp only [onLocks, hacquire]
    exact catch_of_ok ((bind_of_ok rfl).trans hlocks)

/-- Publishing: the locks come first, then the conflict check and the new snapshot. -/
theorem publish_eq (id : TxnId) (start : Snapshot) (writes : List PendingRecord) :
    publish id start writes s =
      match LockTable.acquire id (writes.map PendingRecord.handle) s.config.lockPolicy s.locks with
      | .error e locks => .error e (lockFailed id e { s with locks })
      | .ok guard locks =>
        match Heap.commit start writes s.heap with
        | .error e heap => .error e (conflicted id e (unlock guard { s with locks, heap }))
        | .ok version heap =>
          .ok ⟨guard, version, writes.map PendingRecord.handle⟩ { s with locks, heap } := by
  have hlock := lockWrites_eq s id (writes.map PendingRecord.handle)
  split
  · next e locks hacquire =>
    rw [hacquire] at hlock
    exact bind_of_error hlock
  · next guard locks hacquire =>
    rw [hacquire] at hlock
    apply (bind_of_ok hlock).trans
    split
    · next e heap hcommit =>
      have hheap : onHeap (Heap.commit start writes) { s with locks } =
          .error e { s with locks, heap } := by
        simp only [onHeap, hcommit]
      exact bind_of_error ((catch_of_error (bind_of_error hheap)).trans rfl)
    · next version heap hcommit =>
      have hheap : onHeap (Heap.commit start writes) { s with locks } =
          .ok version { s with locks, heap } := by
        simp only [onHeap, hcommit]
      -- the result leaves the guarded part early
      let p : Publication := ⟨guard, version, writes.map PendingRecord.handle⟩
      exact bind_of_ok (a := Except.error p) (catch_of_ok ((bind_of_ok hheap).trans rfl))

@[simp] theorem nextTransaction_released (live : Option Version) :
    (s.released live).nextTransaction = s.nextTransaction := by
  cases live <;> rfl

@[simp] theorem nextTransaction_aborted (id : TxnId) (reason : AbortReason) :
    (s.aborted id reason).nextTransaction = s.nextTransaction := rfl

@[simp] theorem nextTransaction_committedNothing (id : TxnId) :
    (s.committedNothing id).nextTransaction = s.nextTransaction := rfl

/-- Filing a latch: a new latch is registered in the heap as it is. -/
theorem listen_eq (reads : List Handle) (start : Version) :
    listen reads start s =
      match Listeners.register s.heap.head reads start s.nextLatch s.listeners with
      | .error e listeners => .error e { s with listeners, nextLatch := s.nextLatch + 1 }
      | .ok filed listeners =>
        .ok (s.nextLatch, filed) { s with listeners, nextLatch := s.nextLatch + 1 } := by
  refine (bind_of_ok rfl).trans ((bind_of_ok rfl).trans ?_)
  cases hrun : Listeners.register s.heap.head reads start s.nextLatch s.listeners with
  | error e listeners =>
    apply bind_of_error
    simp only [onListeners, hrun]
  | ok filed listeners =>
    have hfiled : onListeners (Listeners.register s.heap.head reads start s.nextLatch)
        { s with nextLatch := s.nextLatch + 1 } =
        .ok filed { s with listeners, nextLatch := s.nextLatch + 1 } := by
      simp only [onListeners, hrun]
    exact (bind_of_ok hfiled).trans rfl

end Store

namespace Engine

variable {e : Engine} {id : TxnId} {t : Transaction}

theorem on_of_ok {α : Type} {step : Step Transaction α} {a : α} {t' : Transaction}
    (held : e.held.find? id = some t) (hrun : step t = .ok a t') :
    on id step e = .ok a { e with held := e.held.insert id t' } := by
  simp only [on, held, hrun]

theorem on_of_error {α : Type} {step : Step Transaction α} {fault : Error} {t' : Transaction}
    (held : e.held.find? id = some t) (hrun : step t = .error fault t') :
    on id step e = .error fault { e with held := e.held.insert id t' } := by
  simp only [on, held, hrun]

theorem on_of_held {α : Type} (held : e.held.find? id = some t) (step : Step Transaction α) :
    (on id step).after e = { e with held := e.held.insert id (step.after t) } := by
  cases hrun : step t with
  | ok a t' => rw [Step.after_of_ok (on_of_ok held hrun), Step.after_of_ok hrun]
  | error fault t' => rw [Step.after_of_error (on_of_error held hrun), Step.after_of_error hrun]

theorem on_of_absent {α : Type} (absent : e.held.find? id = none) (step : Step Transaction α) :
    on id step e = .error (.internal (.unknownTransaction id)) e := by
  simp only [on, absent]

theorem transaction_of_held (held : e.held.find? id = some t) : transaction id e = .ok t e := by
  simp only [transaction, held]

theorem transaction_of_absent (absent : e.held.find? id = none) :
    transaction id e = .error (.internal (.unknownTransaction id)) e := by
  simp only [transaction, absent]

/-! ## Ending -/

theorem finish_eq (held : e.held.find? id = some t) (status : TransactionStatus) :
    finish id status e = .ok () { e with
      store := e.store.released t.liveVersion
      held := e.held.insert id (t.finish status) } := by
  refine (bind_of_ok (transaction_of_held held)).trans ((bind_of_ok rfl).trans ?_)
  simp only [on, held]
  rfl

theorem endAborted_eq (held : e.held.find? id = some t) (reason : AbortReason) :
    endAborted id reason e = .ok () { e with
      store := (e.store.aborted id reason).released t.liveVersion
      held := e.held.insert id (t.finish (.aborted reason)) } :=
  (bind_of_ok rfl).trans (finish_eq (e := { e with store := e.store.aborted id reason }) held _)

theorem abort_of_absent (absent : e.held.find? id = none) :
    abort id e = .error (.internal (.unknownTransaction id)) e :=
  bind_of_error (transaction_of_absent absent)

theorem abort_eq (held : e.held.find? id = some t) :
    abort id e = match t.status with
      | .aborted _ => .ok () e
      | .committed v => .error (.deadTransaction id (TransactionStatus.committed v).name) e
      | .active => endAborted id .byCaller e := by
  apply (bind_of_ok (transaction_of_held held)).trans
  cases t.status <;> rfl

theorem fail_eq {α : Type} (held : e.held.find? id = some t) (fault : Error) :
    fail (α := α) id fault e = .error fault { e with
      store := (e.store.aborted id (.failed fault)).released t.liveVersion
      held := e.held.insert id (t.finish (.aborted (.failed fault))) } :=
  (bind_of_ok (endAborted_eq held _)).trans rfl

theorem drop_eq (id : TxnId) (e : Engine) :
    drop id e = match e.held.find? id with
      | none => .ok () e
      | some t => .ok () { e with
          store := e.store.released t.liveVersion, held := e.held.erase id } := rfl

/-! ## Committing -/

theorem beginCommit_of_absent (absent : e.held.find? id = none) :
    beginCommit id e = .error (.internal (.unknownTransaction id)) e :=
  bind_of_error (transaction_of_absent absent)

theorem beginCommit_of_ended (held : e.held.find? id = some t) (ended : t.status ≠ .active) :
    beginCommit id e = match t.status with
      | .committed v => .ok (.settled v) e
      | _ => .error (.deadTransaction id t.status.name) e := by
  apply (bind_of_ok (transaction_of_held held)).trans
  cases hstatus : t.status with
  | active => exact absurd hstatus ended
  | committed v => rfl
  | aborted reason => rfl

theorem beginCommit_of_open (held : e.held.find? id = some t) (active : t.status = .active)
    (opened : t.depth ≠ 0) :
    beginCommit id e = .error (.invalidOperation (.openBranches t.depth)) e := by
  apply (bind_of_ok (transaction_of_held held)).trans
  simp only [active]
  rw [if_pos opened]
  rfl

/-- How the writes are collected is no matter to a commit that does not come to it. -/
theorem beginCommitBy_of_not_ready (held : e.held.find? id = some t)
    (notReady : ¬ (t.status = .active ∧ t.depth = 0))
    (collect : Step Transaction (List PendingRecord)) :
    beginCommitBy collect id e = beginCommit id e := by
  have hrun := transaction_of_held held
  refine (bind_of_ok hrun).trans (Eq.trans ?_ (bind_of_ok hrun).symm)
  cases hstatus : t.status with
  | committed v => rfl
  | aborted reason => rfl
  | active =>
    have hopened : t.depth ≠ 0 := fun hclosed => notReady ⟨hstatus, hclosed⟩
    simp only [if_pos hopened]
    rfl

theorem commitBy_of_not_ready (held : e.held.find? id = some t)
    (notReady : ¬ (t.status = .active ∧ t.depth = 0))
    (collect : Step Transaction (List PendingRecord)) : commitBy collect id e = commit id e := by
  have hbegin := beginCommitBy_of_not_ready held notReady collect
  cases hrun : beginCommit id e with
  | ok stage e' =>
    refine (bind_of_ok (hbegin.trans hrun)).trans (Eq.symm ?_)
    exact bind_of_ok hrun
  | error fault e' =>
    refine (bind_of_error (hbegin.trans hrun)).trans (Eq.symm ?_)
    exact bind_of_error hrun

/-- The first half of a commit of an active transaction without open branches. -/
theorem beginCommitBy_of_active (held : e.held.find? id = some t) (active : t.status = .active)
    (closed : t.depth = 0) {collect : Step Transaction (List PendingRecord)}
    {writes : List PendingRecord} {t' : Transaction} (hcollect : collect t = .ok writes t') :
    beginCommitBy collect id e =
      if writes.isEmpty then .ok (.settled e.store.heap.version) { e with
        store := (e.store.committedNothing id).released t'.liveVersion
        held := e.held.insert id (t'.finish (.committed e.store.heap.version)) }
      else match Store.publish id t.snapshot writes e.store with
        | .ok p store => .ok (.published p) { e with store, held := e.held.insert id t' }
        | .error fault store => .error fault { e with
            store := (store.aborted id (.failed fault)).released (markConflict fault t').liveVersion
            held := e.held.insert id
              ((markConflict fault t').finish (.aborted (.failed fault))) } := by
  have hon : on id collect e =
      .ok writes { e with held := e.held.insert id t' } := by
    simp only [on, held, hcollect]
  have hheld : ({ e with held := e.held.insert id t' } : Engine).held.find? id = some t' :=
    SortedMap.find?_insert_self _ _ _
  apply (bind_of_ok (transaction_of_held held)).trans
  simp only [active, closed]
  apply (bind_of_ok (catch_of_ok hon)).trans
  split
  · refine (bind_of_ok rfl).trans ((bind_of_ok rfl).trans ?_)
    refine (bind_of_ok (finish_eq (t := t') ?_ _)).trans ?_
    · exact hheld
    · simp only [SortedMap.insert_insert]
      rfl
  · split
    · next p store hpublish =>
      have hstore : onStore (Store.publish id t.snapshot writes)
          { e with held := e.held.insert id t' } =
          .ok p { e with store, held := e.held.insert id t' } := by
        simp only [onStore, hpublish]
      exact bind_of_ok (a := Except.error (CommitStage.published p))
        (catch_of_ok ((bind_of_ok hstore).trans rfl))
    · next fault store hpublish =>
      have hstore : onStore (Store.publish id t.snapshot writes)
          { e with held := e.held.insert id t' } =
          .error fault { e with store, held := e.held.insert id t' } := by
        simp only [onStore, hpublish]
      have hmark : on id (modify (markConflict fault))
          { e with store, held := e.held.insert id t' } =
          .ok () { e with store, held := e.held.insert id (markConflict fault t') } := by
        simp only [on, SortedMap.find?_insert_self]
        change EStateM.Result.ok () { e with
          store, held := (e.held.insert id t').insert id (markConflict fault t') } = _
        rw [SortedMap.insert_insert]
      refine bind_of_error ((catch_of_error (bind_of_error hstore)).trans
        ((bind_of_ok hmark).trans (bind_of_error ?_)))
      refine (fail_eq (t := markConflict fault t') (SortedMap.find?_insert_self _ _ _) fault).trans ?_
      simp only [SortedMap.insert_insert]

/-- The second half of a commit ends the transaction. -/
theorem endCommit_eq (held : e.held.find? id = some t) (p : Publication) :
    endCommit id p e = .ok p.version { e with
      store := (e.store.conclude id p).released (t.markAll .committed p.handles).liveVersion
      held := e.held.insert id ((t.markAll .committed p.handles).finish (.committed p.version)) } := by
  have hmark : on id (modify (Transaction.markAll .committed p.handles))
      { e with store := e.store.conclude id p } = .ok () { e with
        store := e.store.conclude id p
        held := e.held.insert id (t.markAll .committed p.handles) } := by
    simp only [on, held]
    rfl
  refine (bind_of_ok rfl).trans ((bind_of_ok hmark).trans ?_)
  refine (bind_of_ok (finish_eq (t := t.markAll .committed p.handles) ?_ _)).trans ?_
  · exact SortedMap.find?_insert_self _ _ _
  · simp only [SortedMap.insert_insert]
    rfl

/-! ## Beginning -/

theorem begin_eq (e : Engine) : begin e = start e.store.heap.head e := bind_of_ok rfl

/-- Beginning at a version works where the version is retained. -/
theorem beginAt_cases (v : Version) (e : Engine) :
    (∃ fault, (e.store.heap.version < v ∨ ∃ fault, e.store.heap.snapshotAt v = .error fault) ∧
      beginAt v e = .error fault e) ∨
    (∃ past, ¬ e.store.heap.version < v ∧ e.store.heap.snapshotAt v = .ok past ∧
      beginAt v e = start past e) := by
  by_cases hahead : e.store.heap.version < v
  · refine .inl ⟨.invalidOperation (.beginAhead v e.store.heap.version), .inl hahead, ?_⟩
    apply (bind_of_ok rfl).trans
    simp only [hahead, if_true]
    rfl
  · have hguard : beginAt v e =
        (Step.ofExcept (e.store.heap.snapshotAt v) >>= start) e := by
      apply (bind_of_ok rfl).trans
      simp only [hahead, if_false]
    cases hfound : e.store.heap.snapshotAt v with
    | error fault =>
      refine .inl ⟨fault, .inr ⟨fault, rfl⟩, hguard.trans ?_⟩
      rw [hfound]
      rfl
    | ok past =>
      refine .inr ⟨past, hahead, rfl, hguard.trans ?_⟩
      rw [hfound]
      rfl

/-! ## Attaching -/

theorem attach_of_held (held : e.held.find? id = some t) (o : Object) :
    (attach id o).after e = { e with
      nextHandle := e.nextHandle + 1
      held := e.held.insert id ((Transaction.attachTo ⟨e.nextHandle⟩ o).after t) } := by
  have hon := on_of_held (e := { e with nextHandle := e.nextHandle + 1 }) held
    (Transaction.attachTo ⟨e.nextHandle⟩ o)
  rw [← hon]
  have hattach : attach id o e = (on id (Transaction.attachTo ⟨e.nextHandle⟩ o) >>= fun _ =>
      pure ⟨e.nextHandle⟩) { e with nextHandle := e.nextHandle + 1 } := bind_of_ok rfl
  cases hrun : on id (Transaction.attachTo ⟨e.nextHandle⟩ o)
      { e with nextHandle := e.nextHandle + 1 } with
  | ok u e' =>
    rw [Step.after_of_ok hrun]
    exact Step.after_of_ok (hattach.trans (bind_of_ok hrun))
  | error fault e' =>
    rw [Step.after_of_error hrun]
    exact Step.after_of_error (hattach.trans (bind_of_error hrun))

theorem attach_of_absent (absent : e.held.find? id = none) (o : Object) :
    (attach id o).after e = { e with nextHandle := e.nextHandle + 1 } :=
  Step.after_of_error ((bind_of_ok rfl).trans ((bind_of_ok rfl).trans
    (bind_of_error (on_of_absent (e := { e with nextHandle := e.nextHandle + 1 }) absent _))))

/-! ## Waiting -/

/-- A transaction that has read something files a latch for all that it read. -/
theorem park_of_active (held : e.held.find? id = some t) (active : t.status = .active) :
    park id e =
      if t.readSet.isEmpty then .error (.noProgress (.nothingRead id)) e
      else match Store.listen t.readSet t.startVersion e.store with
        | .error fault store => .error fault { e with store }
        | .ok (latch, filed) store => .ok ⟨latch, filed, t.startVersion⟩ { e with
            store := store.retried id t.readSet.length } := by
  have hon : on id Transaction.ensureActive e = .ok () e := by
    simp only [on, held, Transaction.ensureActive, active, SortedMap.insert_of_find? held]
  refine (bind_of_ok hon).trans ((bind_of_ok (transaction_of_held held)).trans ?_)
  split
  · exact bind_of_error rfl
  · cases hlisten : Store.listen t.readSet t.startVersion e.store with
    | error fault store =>
      apply bind_of_error
      simp only [onStore, hlisten]
    | ok filed store =>
      have hfiled : onStore (Store.listen t.readSet t.startVersion) e =
          .ok filed { e with store } := by
        simp only [onStore, hlisten]
      exact (bind_of_ok hfiled).trans rfl

theorem park_of_inactive (inactive : ∀ t, e.held.find? id = some t → t.status ≠ .active) :
    ∃ fault, park id e = .error fault e := by
  cases hfound : e.held.find? id with
  | none => exact ⟨_, bind_of_error (on_of_absent hfound _)⟩
  | some t =>
    refine ⟨.deadTransaction t.id t.status.name, bind_of_error ?_⟩
    have ended := inactive t hfound
    cases hstatus : t.status with
    | active => exact absurd hstatus ended
    | committed v =>
      simp only [on, hfound, Transaction.ensureActive, hstatus, SortedMap.insert_of_find? hfound]
    | aborted reason =>
      simp only [on, hfound, Transaction.ensureActive, hstatus, SortedMap.insert_of_find? hfound]

theorem suspend_eq (held : e.held.find? id = some t) :
    suspend id e = .ok () { e with
      store := e.store.released t.liveVersion
      held := e.held.insert id { t with entries := ∅, frames := [], liveVersion := none } } := by
  refine (bind_of_ok (transaction_of_held held)).trans ((bind_of_ok rfl).trans ?_)
  simp only [on, held]
  rfl

theorem wake_eq (held : e.held.find? id = some t) (p : Parked) :
    wake id p e = .ok () { e with
      store := (e.store.unlisten p.latch p.filed p.start).started id e.store.heap.head.version
      held := e.held.insert id { t with
        snapshot := e.store.heap.head, liveVersion := some e.store.heap.head.version } } := by
  refine (bind_of_ok rfl).trans ((bind_of_ok rfl).trans ((bind_of_ok rfl).trans ?_))
  simp only [on, held]
  rfl

end Engine

end TransactionalHeap
