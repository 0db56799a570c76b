import TransactionalHeap.Proofs.Engine.Session

/-!
# What every action does

`Session.Effect` lists once what an action of a sound session can do, with the whole session that it
leaves: heap, locks, listeners, live versions and statistics included (`Session.effect`). Every
invariant of sessions is a case analysis over it. For what transactions see of each other the core's
moves are enough (`Session.moves`).
-/
namespace TransactionalHeap

variable [Transactables]

/-- A transaction ends with the given status, over the given store. -/
def Engine.endWith (e : Engine) (id : TxnId) (store : Store) (t : Transaction)
    (status : TransactionStatus) : Engine :=
  { e with store := store.released t.liveVersion, held := e.held.insert id (t.finish status) }

namespace Transaction

/-- The handles that a commit has to write. -/
def writtenHandles (t : Transaction) : List Handle := t.pendingWrites.map PendingRecord.handle

end Transaction

/-- The first half of a commit of a sound transaction. It takes the locks for what is to be written,
then it checks for conflicts, then it publishes; a failure at either gives everything back. -/
theorem Engine.beginCommit_of_sound {good : Object → Prop} {e : Engine} {id : TxnId}
    {t : Transaction} (held : e.held.find? id = some t) (active : t.status = .active)
    (closed : t.frames = []) (sound : t.Sound good) :
    beginCommit id e =
      if t.pendingWrites.isEmpty then .ok (.settled e.store.heap.version)
        (e.endWith id (e.store.committedNothing id) t.settled (.committed e.store.heap.version))
      else match LockTable.acquire id t.writtenHandles e.store.config.lockPolicy e.store.locks with
        | .error fault locks => .error fault (e.endWith id
            ((Store.lockFailed id fault { e.store with locks }).aborted id (.failed fault))
            (markConflict fault t.settled) (.aborted (.failed fault)))
        | .ok guard locks =>
          match Heap.firstConflict t.snapshot e.store.heap.head t.pendingWrites with
          | some fault => .error fault (e.endWith id
              ((Store.conflicted id fault (Store.unlock guard { e.store with
                locks
                heap := { e.store.heap with
                  writeConflicts := e.store.heap.writeConflicts + 1 } })).aborted id (.failed fault))
              (markConflict fault t.settled) (.aborted (.failed fault)))
          | none => .ok (.published ⟨guard, e.store.heap.head.version.next, t.writtenHandles⟩) { e with
              store := { e.store with locks, heap := e.store.heap.publish t.pendingWrites }
              held := e.held.insert id t.settled } := by
  have hrun : beginCommit id e = _ := beginCommitBy_of_active held active
    (List.length_eq_zero_iff.mpr closed) (Transaction.collectWrites_eq sound)
  rw [hrun, Store.publish_eq]
  cases hwrites : t.pendingWrites.isEmpty with
  | true => rfl
  | false =>
    simp only [Bool.false_eq_true, if_false, Transaction.writtenHandles]
    cases LockTable.acquire id (t.pendingWrites.map PendingRecord.handle) e.store.config.lockPolicy
      e.store.locks with
    | error fault locks => rfl
    | ok guard locks =>
      simp only [Heap.commit, hwrites]
      cases Heap.firstConflict t.snapshot e.store.heap.head t.pendingWrites <;> rfl

namespace Session

/-- A transaction that may begin to commit: it is held, in no call, active and without branches. -/
structure Ready (s : Session) (id : TxnId) (t : Transaction) : Prop where
  held : s.engine.held.find? id = some t
  free : s.calls.find? id = none
  active : t.status = .active
  closed : t.frames = []

/-- The outcome of taking the locks for all that a transaction has to write. -/
abbrev lockFor (s : Session) (id : TxnId) (t : Transaction) : EStateM.Result Error LockTable LockGuard :=
  LockTable.acquire id t.writtenHandles s.engine.store.config.lockPolicy s.engine.store.locks

/-- What an action does to a session, and the commit that it publishes, if it does. -/
inductive Effect (s : Session) : Action → Option Committed → Session → Prop
  | nothing {a : Action} (mayRefuse : s.core.MayRefuse a) : Effect s a none s
  | usedHandle {id : TxnId} {o : Object} (absent : s.engine.held.find? id = none) :
      Effect s (.attach id o) none { s with
        engine := { s.engine with nextHandle := s.engine.nextHandle + 1 } }
  | began {a : Action} {past : Snapshot}
      (which : a = .begin ∧ past = s.engine.store.heap.head ∨ ∃ v, a = .beginAt v ∧
        ¬ s.engine.store.heap.head.version < v ∧ s.engine.store.heap.head.asOf v = .ok past) :
      Effect s a none { s with engine := (Engine.start past).after s.engine }
  | dropped {id : TxnId} {t : Transaction} (held : s.engine.held.find? id = some t)
      (free : s.calls.find? id = none) :
      Effect s (.drop id) none { s with engine := { s.engine with
        store := s.engine.store.released t.liveVersion, held := s.engine.held.erase id } }
  | performed {id : TxnId} {op : Op} {t : Transaction} (held : s.engine.held.find? id = some t)
      (free : s.calls.find? id = none) :
      Effect s (.perform id op) none { s with engine := { s.engine with
        held := s.engine.held.insert id (op.run.after t) } }
  | attached {id : TxnId} {o : Object} {t : Transaction} (held : s.engine.held.find? id = some t)
      (free : s.calls.find? id = none) :
      Effect s (.attach id o) none { s with engine := { s.engine with
        nextHandle := s.engine.nextHandle + 1
        held := s.engine.held.insert id ((Op.attachTo ⟨s.engine.nextHandle⟩ o).run.after t) } }
  | aborted {id : TxnId} {t : Transaction} (held : s.engine.held.find? id = some t)
      (free : s.calls.find? id = none) (active : t.status = .active) :
      Effect s (.abort id) none { s with
        engine := s.engine.endWith id (s.engine.store.aborted id .byCaller) t (.aborted .byCaller) }
  | unchanged {id : TxnId} {t : Transaction} (ready : s.Ready id t) (nothing : t.changed = ∅) :
      Effect s (.publish id) none { s with
        engine := s.engine.endWith id (s.engine.store.committedNothing id) t.settled
          (.committed s.engine.store.heap.version) }
  | lockedOut {id : TxnId} {t : Transaction} {fault : Error} {locks : LockTable}
      (ready : s.Ready id t) (something : t.changed ≠ ∅)
      (lost : s.lockFor id t = .error fault locks) :
      Effect s (.publish id) none { s with
        engine := s.engine.endWith id
          ((Store.lockFailed id fault { s.engine.store with locks }).aborted id (.failed fault))
          (Engine.markConflict fault t.settled) (.aborted (.failed fault)) }
  | conflicted {id : TxnId} {t : Transaction} {fault : Error} {guard : LockGuard} {locks : LockTable}
      {heap : Heap} (ready : s.Ready id t) (something : t.changed ≠ ∅)
      (locked : s.lockFor id t = .ok guard locks)
      (lost : Heap.firstConflict t.snapshot s.engine.store.heap.head t.pendingWrites = some fault)
      (counted : heap = { s.engine.store.heap with
        writeConflicts := s.engine.store.heap.writeConflicts + 1 }) :
      Effect s (.publish id) none { s with
        engine := s.engine.endWith id
          ((Store.conflicted id fault (Store.unlock guard
            { s.engine.store with locks, heap })).aborted id (.failed fault))
          (Engine.markConflict fault t.settled) (.aborted (.failed fault)) }
  | published {id : TxnId} {t : Transaction} {guard : LockGuard} {locks : LockTable}
      {p : Publication} (ready : s.Ready id t) (something : t.changed ≠ ∅)
      (locked : s.lockFor id t = .ok guard locks)
      (unconflicted :
        Heap.firstConflict t.snapshot s.engine.store.heap.head t.pendingWrites = none)
      (which : p = ⟨guard, s.engine.store.heap.head.version.next, t.writtenHandles⟩) :
      Effect s (.publish id)
        (some ⟨id, t.snapshot, t.readValues, p.version, t.pendingWrites⟩)
        { engine := { s.engine with
            store := { s.engine.store with
              locks, heap := s.engine.store.heap.publish t.pendingWrites }
            held := s.engine.held.insert id t.settled }
          calls := s.calls.insert id (.committing p) }
  | concluded {id : TxnId} {t : Transaction} {p : Publication}
      (held : s.engine.held.find? id = some t)
      (calling : s.calls.find? id = some (.committing p)) :
      Effect s (.conclude id) none
        { engine := s.engine.endWith id (s.engine.store.conclude id p)
            (t.markAll .committed p.handles) (.committed p.version)
          calls := s.calls.erase id }
  | unparked {id : TxnId} {t : Transaction} {fault : Error} {listeners : Listeners}
      (held : s.engine.held.find? id = some t) (active : t.status = .active)
      (free : s.calls.find? id = none) (reads : t.readSet ≠ [])
      (lost : Listeners.register s.engine.store.heap.head t.readSet t.startVersion
        s.engine.store.nextLatch s.engine.store.listeners = .error fault listeners) :
      Effect s (.park id) none { s with
        engine := { s.engine with store :=
          { s.engine.store with listeners, nextLatch := s.engine.store.nextLatch + 1 } } }
  | parked {id : TxnId} {t : Transaction} {filed : List Handle} {listeners : Listeners} {p : Parked}
      (held : s.engine.held.find? id = some t) (active : t.status = .active)
      (free : s.calls.find? id = none) (reads : t.readSet ≠ [])
      (registered : Listeners.register s.engine.store.heap.head t.readSet t.startVersion
        s.engine.store.nextLatch s.engine.store.listeners = .ok filed listeners)
      (which : p = ⟨s.engine.store.nextLatch, filed, t.startVersion⟩) :
      Effect s (.park id) none
        { engine := { s.engine with
            store := Store.retried id t.readSet.length
              { s.engine.store with listeners, nextLatch := s.engine.store.nextLatch + 1 } }
          calls := s.calls.insert id (.parked p) }
  | suspended {id : TxnId} {t : Transaction} {p : Parked}
      (held : s.engine.held.find? id = some t)
      (calling : s.calls.find? id = some (.parked p)) :
      Effect s (.suspend id) none
        { engine := { s.engine with
            store := s.engine.store.released t.liveVersion
            held := s.engine.held.insert id { t with
              entries := ∅, frames := [], liveVersion := none } }
          calls := s.calls.insert id (.suspended p) }
  | woken {id : TxnId} {t : Transaction} {p : Parked}
      (held : s.engine.held.find? id = some t)
      (calling : s.calls.find? id = some (.suspended p)) :
      Effect s (.wake id) none
        { engine := { s.engine with
            store := (s.engine.store.unlisten p.latch p.filed p.start).started id
              s.engine.store.heap.head.version
            held := s.engine.held.insert id { t with
              snapshot := s.engine.store.heap.head
              liveVersion := some s.engine.store.heap.head.version } }
          calls := s.calls.erase id }

/-! ## Every action has one of these effects -/

variable {good : Object → Prop} {s : Session}

theorem unlessCalling_of_calling {id : TxnId} (h : s.calls.contains id = true)
    (act : Session → Session) : s.unlessCalling id act = s := if_pos h

theorem unlessCalling_of_free {id : TxnId} (h : s.calls.contains id = false)
    (act : Session → Session) : s.unlessCalling id act = act s := by
  rw [unlessCalling, h]
  rfl

theorem effect_begin : Effect s .begin none (s.step .begin) := by
  have hbegin : (Engine.begin).after s.engine =
      (Engine.start s.engine.store.heap.head).after s.engine :=
    (Step.after_of_ok (Engine.begin_eq s.engine)).trans (Step.after_of_ok rfl).symm
  simp only [step, onEngine, hbegin]
  exact .began (.inl ⟨rfl, rfl⟩)

theorem effect_beginAt (v : Version) : Effect s (.beginAt v) none (s.step (.beginAt v)) := by
  rcases Engine.beginAt_cases v s.engine with ⟨fault, hrefused, hrun⟩ |
    ⟨past, hahead, hfound, hrun⟩
  · have hafter : (Engine.beginAt v).after s.engine = s.engine := Step.after_of_error hrun
    simp only [step, onEngine, hafter]
    exact .nothing hrefused
  · have hafter : (Engine.beginAt v).after s.engine = (Engine.start past).after s.engine :=
      (Step.after_of_ok hrun).trans (Step.after_of_ok rfl).symm
    simp only [step, onEngine, hafter]
    exact .began (.inr ⟨v, rfl, hahead, hfound⟩)

/-- An action that only a transaction outside of calls can take, given what it does there. -/
theorem effect_unlessCalling {a : Action} {id : TxnId} {act : Session → Session}
    (hcalling : s.calls.find? id ≠ none → s.core.MayRefuse a)
    (hfree : s.calls.find? id = none → Effect s a none (act s)) :
    Effect s a none (s.unlessCalling id act) := by
  cases hcalls : s.calls.contains id with
  | true =>
    obtain ⟨call, hcall⟩ := SortedMap.contains_iff.mp hcalls
    rw [unlessCalling_of_calling hcalls]
    refine .nothing (hcalling ?_)
    rw [hcall]
    exact Option.some_ne_none call
  | false =>
    rw [unlessCalling_of_free hcalls]
    exact hfree (SortedMap.contains_eq_false_iff.mp hcalls)

theorem effect_drop (id : TxnId) : Effect s (.drop id) none (s.step (.drop id)) := by
  refine effect_unlessCalling .inl fun hfree => ?_
  have hdrop := Engine.drop_eq id s.engine
  cases hheld : s.engine.held.find? id with
  | none =>
    rw [hheld] at hdrop
    have hafter : (Engine.drop id).after s.engine = s.engine := Step.after_of_ok hdrop
    simp only [onEngine, hafter]
    exact .nothing (.inr hheld)
  | some t =>
    rw [hheld] at hdrop
    have hafter : (Engine.drop id).after s.engine = _ := Step.after_of_ok hdrop
    simp only [onEngine, hafter]
    exact .dropped hheld hfree

theorem effect_attach (id : TxnId) (o : Object) :
    Effect s (.attach id o) none (s.step (.attach id o)) := by
  refine effect_unlessCalling (fun hcalling => hcalling) fun hfree => ?_
  cases hheld : s.engine.held.find? id with
  | none =>
    simp only [onEngine, Engine.attach_of_absent hheld]
    exact .usedHandle hheld
  | some t =>
    simp only [onEngine, Engine.attach_of_held hheld]
    exact .attached hheld hfree

theorem effect_perform (id : TxnId) (op : Op) :
    Effect s (.perform id op) none (s.step (.perform id op)) := by
  refine effect_unlessCalling .inl fun hfree => ?_
  cases hheld : s.engine.held.find? id with
  | none =>
    have hafter : (Engine.on id op.run).after s.engine = s.engine :=
      Step.after_of_error (Engine.on_of_absent hheld op.run)
    simp only [onEngine, hafter]
    exact .nothing (.inr hheld)
  | some t =>
    simp only [onEngine, Engine.on_of_held hheld]
    exact .performed hheld hfree

theorem effect_abort (id : TxnId) : Effect s (.abort id) none (s.step (.abort id)) := by
  refine effect_unlessCalling .inl fun hfree => ?_
  cases hheld : s.engine.held.find? id with
  | none =>
    have hafter : (Engine.abort id).after s.engine = s.engine :=
      Step.after_of_error (Engine.abort_of_absent hheld)
    simp only [onEngine, hafter]
    refine .nothing (.inr fun t hheld' => ?_)
    rw [show s.core.held.find? id = none from hheld] at hheld'
    cases hheld'
  | some t =>
    have habort := Engine.abort_eq hheld
    have hended : t.status ≠ .active → s.core.MayRefuse (.abort id) := by
      refine fun hended => .inr fun t' hheld' => ?_
      obtain rfl : t = t' := Option.some.inj (hheld.symm.trans hheld')
      exact hended
    cases hstatus : t.status with
    | aborted reason =>
      rw [hstatus] at habort
      have hafter : (Engine.abort id).after s.engine = s.engine := Step.after_of_ok habort
      simp only [onEngine, hafter]
      exact .nothing (hended (by simp [hstatus]))
    | committed v =>
      rw [hstatus] at habort
      have hafter : (Engine.abort id).after s.engine = s.engine := Step.after_of_error habort
      simp only [onEngine, hafter]
      exact .nothing (hended (by simp [hstatus]))
    | active =>
      rw [hstatus] at habort
      have hafter : (Engine.abort id).after s.engine = _ :=
        Step.after_of_ok (habort.trans (Engine.endAborted_eq hheld .byCaller))
      simp only [onEngine, hafter]
      exact .aborted hheld hfree hstatus

theorem effect_conclude (sound : s.core.Sound good) (id : TxnId) :
    Effect s (.conclude id) none (s.step (.conclude id)) := by
  cases hcall : s.calls.find? id with
  | none =>
    simp only [step, hcall]
    exact .nothing (fun p => by simp [core, hcall])
  | some call =>
    cases call with
    | parked p | suspended p =>
      simp only [step, hcall]
      exact .nothing (fun p' => by simp [core, hcall])
    | committing p =>
      obtain ⟨t, hheld, -⟩ := sound.calls id _ hcall
      have hafter : (Engine.endCommit id p).after s.engine = _ :=
        Step.after_of_ok (Engine.endCommit_eq hheld p)
      simp only [step, hcall, hafter]
      exact .concluded hheld hcall

theorem effect_suspend (sound : s.core.Sound good) (id : TxnId) :
    Effect s (.suspend id) none (s.step (.suspend id)) := by
  cases hcall : s.calls.find? id with
  | none =>
    simp only [step, hcall]
    exact .nothing (fun p => by simp [core, hcall])
  | some call =>
    cases call with
    | committing p | suspended p =>
      simp only [step, hcall]
      exact .nothing (fun p' => by simp [core, hcall])
    | parked p =>
      obtain ⟨t, hheld, -⟩ := sound.calls id _ hcall
      have hafter : (Engine.suspend id).after s.engine = _ :=
        Step.after_of_ok (Engine.suspend_eq hheld)
      simp only [step, hcall, hafter]
      exact .suspended hheld hcall

theorem effect_wake (sound : s.core.Sound good) (id : TxnId) :
    Effect s (.wake id) none (s.step (.wake id)) := by
  cases hcall : s.calls.find? id with
  | none =>
    simp only [step, hcall]
    exact .nothing (fun p => by simp [core, hcall])
  | some call =>
    cases call with
    | committing p | parked p =>
      simp only [step, hcall]
      exact .nothing (fun p' => by simp [core, hcall])
    | suspended p =>
      obtain ⟨t, hheld, -⟩ := sound.calls id _ hcall
      have hafter : (Engine.wake id p).after s.engine = _ :=
        Step.after_of_ok (Engine.wake_eq hheld p)
      simp only [step, hcall, hafter]
      exact .woken hheld hcall

theorem effect_park (id : TxnId) : Effect s (.park id) none (s.step (.park id)) := by
  have hmayRefuse : s.core.MayRefuse (.park id) := trivial
  rw [step]
  refine effect_unlessCalling (fun _ => hmayRefuse) fun hfree => ?_
  by_cases hactive : ∃ t, s.engine.held.find? id = some t ∧ t.status = .active
  · obtain ⟨t, hheld, active⟩ := hactive
    have hpark := Engine.park_of_active hheld active
    have hlisten := Store.listen_eq s.engine.store t.readSet t.startVersion
    by_cases hreads : t.readSet = []
    · rw [hreads] at hpark
      simp only [hpark, List.isEmpty_nil, if_true]
      exact .nothing trivial
    · rw [if_neg (by simpa using hreads)] at hpark
      split at hlisten
      · next fault listeners hregister =>
        rw [hlisten] at hpark
        simp only [hpark]
        exact .unparked hheld active hfree hreads hregister
      · next filed listeners hregister =>
        rw [hlisten] at hpark
        simp only [hpark]
        exact .parked hheld active hfree hreads hregister rfl
  · obtain ⟨fault, hpark⟩ : ∃ fault, Engine.park id s.engine = .error fault s.engine :=
      Engine.park_of_inactive fun t hheld active => hactive ⟨t, hheld, active⟩
    simp only [hpark]
    exact .nothing trivial

/-- The first half of a commit that does not publish. -/
theorem effect_unpublished {id : TxnId} (hfree : s.calls.find? id = none) {engine : Engine}
    (hrun : (∃ v, Engine.beginCommit id s.engine = .ok (.settled v) engine) ∨
      ∃ fault, Engine.beginCommit id s.engine = .error fault engine)
    (heffect : Effect s (.publish id) none { s with engine }) :
    Effect s (.publish id) (s.published? (.publish id)) (s.step (.publish id)) := by
  have hcalls := SortedMap.contains_eq_false_iff.mpr hfree
  have hnone : s.published? (.publish id) = none := by
    simp only [published?, hcalls]
    rcases hrun with ⟨v, hrun⟩ | ⟨fault, hrun⟩ <;> rw [hrun] <;>
      cases s.engine.held.find? id <;> rfl
  have hstep : s.step (.publish id) = { s with engine } := by
    simp only [step, unlessCalling_of_free hcalls]
    rcases hrun with ⟨v, hrun⟩ | ⟨fault, hrun⟩ <;> rw [hrun]
  rw [hnone, hstep]
  exact heffect

/-- The first half of a commit that may begin: it ends the transaction, or it publishes what was
collected. -/
theorem effect_publish_ready (sound : s.core.Sound good) {id : TxnId} {t : Transaction}
    (ready : s.Ready id t) :
    Effect s (.publish id) (s.published? (.publish id)) (s.step (.publish id)) := by
  have htSound := (sound.held id t ready.held).sound
  have hrun := Engine.beginCommit_of_sound ready.held ready.active ready.closed htSound
  by_cases hnothing : t.changed = ∅
  · rw [Transaction.pendingWrites_eq_nil_iff.mpr hnothing] at hrun
    exact effect_unpublished ready.free (.inl ⟨_, hrun⟩) (.unchanged ready hnothing)
  · have hwrites : ¬ t.pendingWrites.isEmpty = true := fun hempty =>
      hnothing (Transaction.pendingWrites_eq_nil_iff.mp (List.isEmpty_iff.mp hempty))
    rw [if_neg hwrites] at hrun
    cases hlock : s.lockFor id t with
    | error fault locks =>
      simp only [lockFor] at hlock
      rw [hlock] at hrun
      exact effect_unpublished ready.free (.inr ⟨_, hrun⟩) (.lockedOut ready hnothing hlock)
    | ok guard locks =>
      simp only [lockFor] at hlock
      rw [hlock] at hrun
      cases hcheck : Heap.firstConflict t.snapshot s.engine.store.heap.head t.pendingWrites with
      | some fault =>
        simp only [hcheck] at hrun
        exact effect_unpublished ready.free (.inr ⟨_, hrun⟩)
          (.conflicted ready hnothing hlock hcheck rfl)
      | none =>
        simp only [hcheck] at hrun
        have hcalls := SortedMap.contains_eq_false_iff.mpr ready.free
        have hlog : s.published? (.publish id) = some ⟨id, t.snapshot, t.readValues,
            s.engine.store.heap.head.version.next, t.pendingWrites⟩ := by
          simp only [published?, hcalls, ready.held, hrun, Transaction.collectWrites_eq htSound]
          rfl
        simp only [hlog, step, unlessCalling_of_free hcalls, hrun]
        exact .published ready hnothing hlock hcheck rfl

theorem effect_publish (sound : s.core.Sound good) (id : TxnId) :
    Effect s (.publish id) (s.published? (.publish id)) (s.step (.publish id)) := by
  cases hcalls : s.calls.contains id with
  | true =>
    have hnone : s.published? (.publish id) = none := by simp only [published?, hcalls, if_true]
    rw [hnone, step, unlessCalling_of_calling hcalls]
    exact .nothing trivial
  | false =>
    have hfree := SortedMap.contains_eq_false_iff.mp hcalls
    cases hheld : s.engine.held.find? id with
    | none =>
      exact effect_unpublished hfree (.inr ⟨_, Engine.beginCommit_of_absent hheld⟩)
        (.nothing trivial)
    | some t =>
      by_cases active : t.status = .active
      · by_cases closed : t.depth = 0
        · exact effect_publish_ready sound
            ⟨hheld, hfree, active, List.length_eq_zero_iff.mp closed⟩
        · exact effect_unpublished hfree
            (.inr ⟨_, Engine.beginCommit_of_open hheld active closed⟩) (.nothing trivial)
      · have hrun := Engine.beginCommit_of_ended hheld active
        cases hstatus : t.status with
        | active => exact absurd hstatus active
        | committed v =>
          rw [hstatus] at hrun
          exact effect_unpublished hfree (.inl ⟨v, hrun⟩) (.nothing trivial)
        | aborted reason =>
          rw [hstatus] at hrun
          exact effect_unpublished hfree (.inr ⟨_, hrun⟩) (.nothing trivial)

/-- What an action does to a sound session, said once. -/
theorem effect (sound : s.core.Sound good) (a : Action) :
    Effect s a (s.published? a) (s.step a) := by
  cases a with
  | begin => exact effect_begin
  | beginAt v => exact effect_beginAt v
  | drop id => exact effect_drop id
  | attach id o => exact effect_attach id o
  | perform id op => exact effect_perform id op
  | abort id => exact effect_abort id
  | publish id => exact effect_publish sound id
  | conclude id => exact effect_conclude sound id
  | park id => exact effect_park id
  | suspend id => exact effect_suspend sound id
  | wake id => exact effect_wake sound id

/-! ## What is seen of it -/

/-- The core of a session in which a transaction has ended, outside of calls. -/
theorem moves_endWith {a : Action} {id : TxnId} {t marked : Transaction} {store : Store}
    {status : TransactionStatus} (held : s.engine.held.find? id = some t)
    (free : s.calls.find? id = none) (which : a = .abort id ∨ a = .publish id ∨ a = .conclude id)
    (rest : marked = { t with entries := marked.entries }) (inactive : status ≠ .active)
    (head : store.heap.head = s.engine.store.heap.head)
    (next : store.nextTransaction = s.engine.store.nextTransaction) :
    Core.Moves good s.core a none
      (core { s with engine := s.engine.endWith id store marked status }) := by
  have hmove : Core.Moves good s.core a none _ :=
    .ended held which (Transaction.ended_finish rest inactive)
  have hcalls : s.core.calls.erase id = s.calls := SortedMap.erase_of_find? free
  rw [hcalls] at hmove
  simp only [core, Engine.endWith, Store.heap_released, Store.nextTransaction_released, head, next]
  exact hmove

theorem Effect.moves {a : Action} {log : Option Committed} {s' : Session}
    (effect : Effect s a log s') (sound : s.core.Sound good) :
    Core.Moves good s.core a log s'.core := by
  have hmark : ∀ (fault : Error) (t : Transaction), Engine.markConflict fault t.settled =
      { t with entries := (Engine.markConflict fault t.settled).entries } := by
    intro fault t
    rw [Engine.markConflict_rest]
    rfl
  cases effect with
  | nothing mayRefuse => exact .nothing mayRefuse
  | usedHandle absent => exact .usedHandle absent
  | began which => exact .began which
  | dropped held free =>
    simp only [core, Store.heap_released, Store.nextTransaction_released]
    exact .dropped held free
  | performed held free => exact .performed held free
  | attached held free => exact .attached held free
  | aborted held free active =>
    exact moves_endWith held free (.inl rfl) rfl (by simp) (by simp) (by simp)
  | unchanged ready nothing =>
    exact moves_endWith ready.held ready.free (.inr (.inl rfl)) rfl (by simp) (by simp) (by simp)
  | @lockedOut id t fault locks ready something lost =>
    exact moves_endWith ready.held ready.free (.inr (.inl rfl)) (hmark fault t) (by simp) rfl rfl
  | @conflicted id t fault guard locks heap ready something locked lost counted =>
    exact moves_endWith ready.held ready.free (.inr (.inl rfl)) (hmark fault t) (by simp)
      (by rw [counted]; rfl) rfl
  | @published id t guard locks p ready something locked unconflicted which =>
    have hsound := (sound.held id t ready.held).sound
    exact .published ready.held ready.free ready.active ready.closed
      (Transaction.collectWrites_eq hsound) rfl (Transaction.settled_sound hsound)
      (fun w hw => Transaction.due_of_mem_pendingWrites hsound hw)
      (fun hnil => something (Transaction.pendingWrites_eq_nil_iff.mp hnil)) unconflicted
      (by rw [which]; rfl) (by rw [which]; rfl)
  | concluded held calling =>
    simp only [core, Engine.endWith, Store.heap_released, Store.heap_conclude,
      Store.nextTransaction_released]
    exact .ended held (.inr (.inr rfl)) (Transaction.ended_finish (Transaction.markAll_rest _ _ _)
      (by simp))
  | unparked held active free reads lost => exact .nothing trivial
  | @parked id t filed listeners p held active free reads registered which =>
    have hmove : Core.Moves good s.core (.park id) none { s.core with
        calls := s.core.calls.insert id (.parked p) } := .parked held active free
    exact hmove
  | suspended held calling =>
    simp only [core, Store.heap_released, Store.nextTransaction_released]
    exact .suspended held calling
  | woken held calling => exact .woken held calling

/-- What an action does to the core of a sound session. -/
theorem moves (sound : s.core.Sound good) (a : Action) :
    Core.Moves good s.core a (s.published? a) (s.step a).core :=
  (effect sound a).moves sound

end Session

end TransactionalHeap
