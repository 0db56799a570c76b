import TransactionalHeap.Proofs.Engine.Committing
import TransactionalHeap.Proofs.Heap.WriteOrder
import TransactionalHeap.Proofs.Listeners.Filing

/-!
# Commits that collect in another order

`Engine.commit` collects what it writes in ascending handle order. The order in which the entries of a
transaction are met decides nothing but the shape of the new tree, the order in which latches are
opened, and which of several conflicts a commit fails over (`Session.commit_in_any_order`). For the
locks are sorted anyway, a group of listeners is told the same whichever is told first, and the heap
cannot tell orders of writes to different objects apart (`Heap.commit_order_irrelevant`).
-/
namespace TransactionalHeap

/-- The locks are taken in ascending order, however the handles are listed. -/
theorem LockTable.acquire_of_perm {handles handles' : List Handle} (perm : handles.Perm handles')
    (owner : TxnId) (policy : LockPolicy) :
    acquire owner handles policy = acquire owner handles' policy := by
  rw [acquire, acquire, Handle.sortDistinct_of_perm perm]

/-! ## Announcing -/

namespace LatchGroup

/-- The group once a version is announced. -/
def advanced (v : Version) (g : LatchGroup) : LatchGroup := (g.activate v {}).1

theorem activate_fst (g : LatchGroup) (v : Version) (ls : Latches) :
    (g.activate v ls).1 = g.advanced v := by
  unfold advanced activate
  split <;> rfl

theorem le_active_advanced (g : LatchGroup) (v : Version) : v ≤ (g.advanced v).active := by
  rw [advanced, active_activate]
  split
  · assumption
  · exact UInt64.le_refl v

/-- Announcing the same version again changes nothing. -/
theorem advanced_advanced (g : LatchGroup) (v : Version) :
    (g.advanced v).advanced v = g.advanced v := by
  have hreached := g.le_active_advanced v
  rw [advanced, activate, if_pos hreached]

theorem not_opens_advanced (g : LatchGroup) (v : Version) (latch : LatchId) :
    ¬ (g.advanced v).Opens v latch :=
  fun opens => UInt64.not_le.mpr opens.1 (g.le_active_advanced v)

end LatchGroup

namespace Listeners


theorem find?_groups_activate (l : Listeners) (h other : Handle) (v : Version) :
    (l.activate h v).groups.find? other =
      if other = h then (l.groups.find? h).map (·.advanced v) else l.groups.find? other := by
  cases hfound : l.groups.find? h with
  | none =>
    rw [activate, onGroup_of_absent hfound]
    split
    · next hsame => rw [hsame, hfound, Option.map_none]
    · rfl
  | some g =>
    rw [activate, onGroup_of_find? hfound, LatchGroup.activate_fst, withGroup]
    split
    · next hsame => rw [hsame, SortedMap.find?_insert_self, Option.map_some]
    · next hne => rw [SortedMap.find?_insert_of_ne _ _ hne]

/-- Announcing a version to an object opens what its group opens. -/
theorem isOpen_activate (l : Listeners) (h : Handle) (v : Version) (latch : LatchId) :
    (l.activate h v).latches.isOpen latch ↔
      l.latches.isOpen latch ∨ ∃ g, l.groups.find? h = some g ∧ g.Opens v latch := by
  cases hfound : l.groups.find? h with
  | none =>
    rw [activate, onGroup_of_absent hfound]
    refine (or_iff_left ?_).symm
    rintro ⟨g, hg, -⟩
    cases hg
  | some g =>
    rw [activate, onGroup_of_find? hfound, withGroup, LatchGroup.isOpen_activate]
    simp only [Option.some.injEq, exists_eq_left']

/-- After an announcement the groups of the written objects are advanced. -/
theorem find?_groups_notify (l : Listeners) (handles : List Handle) (v : Version) (other : Handle) :
    (l.notify handles v).groups.find? other =
      if other ∈ handles then (l.groups.find? other).map (·.advanced v)
      else l.groups.find? other := by
  induction handles generalizing l with
  | nil => rfl
  | cons h later ih =>
    have hstep : l.notify (h :: later) v = (l.activate h v).notify later v := rfl
    rw [hstep, ih, find?_groups_activate]
    by_cases hsame : other = h
    · subst hsame
      simp only [if_true, List.mem_cons_self]
      split
      · rw [Option.map_map]
        congr 1
        funext g
        exact g.advanced_advanced v
      · rfl
    · simp only [List.mem_cons, hsame, false_or, if_false]

/-- What an announcement opens is what the groups of the written objects open. -/
theorem isOpen_notify (l : Listeners) (handles : List Handle) (v : Version) (latch : LatchId) :
    (l.notify handles v).latches.isOpen latch ↔ l.latches.isOpen latch ∨
      ∃ h ∈ handles, ∃ g, l.groups.find? h = some g ∧ g.Opens v latch := by
  induction handles generalizing l with
  | nil => simp [notify]
  | cons h later ih =>
    have hstep : l.notify (h :: later) v = (l.activate h v).notify later v := rfl
    rw [hstep, ih, isOpen_activate, or_assoc]
    refine or_congr_right ⟨?_, ?_⟩
    · rintro (⟨g, hg, hopens⟩ | ⟨other, hmem, g, hg, hopens⟩)
      · exact ⟨h, List.mem_cons_self, g, hg, hopens⟩
      · rw [find?_groups_activate] at hg
        split at hg
        · -- its group is advanced already
          obtain ⟨g', -, rfl⟩ := Option.map_eq_some_iff.mp hg
          exact absurd hopens (g'.not_opens_advanced v latch)
        · exact ⟨other, List.mem_cons_of_mem _ hmem, g, hg, hopens⟩
    · rintro ⟨other, hmem, g, hg, hopens⟩
      by_cases hsame : other = h
      · subst hsame
        exact .inl ⟨g, hg, hopens⟩
      · refine .inr ⟨other, (List.mem_cons.mp hmem).resolve_left hsame, g, ?_, hopens⟩
        rwa [find?_groups_activate, if_neg hsame]

/-- Two states of the listeners show the same: they have the same groups, and the same latches are
open. -/
structure Alike (l l' : Listeners) : Prop where
  groups : l.groups = l'.groups
  opened : ∀ latch, l.latches.isOpen latch = l'.latches.isOpen latch

/-- It does not matter in which order the listeners are told about a commit. -/
theorem notify_of_perm {handles handles' : List Handle} (perm : handles.Perm handles')
    (l : Listeners) (v : Version) :
    (l.notify handles v).Alike (l.notify handles' v) where
  groups := by
    apply SortedMap.ext_find?
    intro other
    rw [find?_groups_notify, find?_groups_notify]
    simp only [perm.mem_iff]
  opened latch := by
    rw [Bool.eq_iff_iff, isOpen_notify, isOpen_notify]
    simp only [perm.mem_iff]

end Listeners

section

variable [Transactables]

/-! ## Marking -/

/-- It does not matter in which order entries are marked. -/
theorem Transaction.markAll_of_perm {handles handles' : List Handle} (perm : handles.Perm handles')
    (status : EntryStatus) (t : Transaction) : t.markAll status handles = t.markAll status handles' := by
  have hentries : (t.markAll status handles).entries = (t.markAll status handles').entries := by
    apply SortedMap.ext_find?
    intro h
    rw [find?_markAll, find?_markAll]
    simp only [perm.mem_iff]
  rw [markAll_rest, hentries, ← markAll_rest]

/-- Every object is written once. -/
theorem Transaction.nodup_writtenHandles (t : Transaction) : t.writtenHandles.Nodup := by
  have hkeys : t.writtenHandles = t.changed.keys := by
    rw [writtenHandles, pendingWrites, List.map_map]
    rfl
  rw [hkeys]
  exact t.changed.nodup_keys

/-! ## The commit -/

/-- Two snapshots show the same: they have the same version and the same past, and their trees show the
same. -/
structure Snapshot.Alike (s s' : Snapshot) : Prop where
  version : s.version = s'.version
  past : s.chain.tail = s'.chain.tail
  contents : s.tree.SameContents s'.tree

namespace Engine

/-- Two engines show the same: their newest snapshots and their listeners do, and nothing else of them
differs. -/
structure Alike (e e' : Engine) : Prop where
  head : e.store.heap.head.Alike e'.store.heap.head
  listeners : e.store.listeners.Alike e'.store.listeners
  rest : e' = { e with
    store := { e.store with
      heap := { e.store.heap with head := e'.store.heap.head }
      listeners := e'.store.listeners } }

/-- The engine after a commit over the given store that has failed by a conflict. -/
def lost (e : Engine) (id : TxnId) (t : Transaction) (store : Store) (fault : Error) : Engine :=
  e.endWith id ((store.conflicted id fault).aborted id (.failed fault))
    (markConflict fault t.settled) (.aborted (.failed fault))

/-- The engine after a commit that was given the locks and has published the writes. -/
def won (e : Engine) (id : TxnId) (t : Transaction) (guard : LockGuard) (locks : LockTable)
    (writes : List PendingRecord) : Engine :=
  let handles := writes.map PendingRecord.handle
  let v := e.store.heap.head.version.next
  let store := { e.store with locks, heap := e.store.heap.publish writes }
  e.endWith id (store.conclude id ⟨guard, v, handles⟩) (t.settled.markAll .committed handles)
    (.committed v)

/-- Two ends of a commit of the transaction show the same, or they have failed by different conflicts
and show that. -/
inductive CommitsAlike (e : Engine) (id : TxnId) (t : Transaction) :
    Except Error Version × Engine → Except Error Version × Engine → Prop
  | same (result : Except Error Version × Engine) : CommitsAlike e id t result result
  | committed {v : Version} {e₁ e₂ : Engine} (alike : e₁.Alike e₂) :
      CommitsAlike e id t (.ok v, e₁) (.ok v, e₂)
  | lost {fault fault' : Error} {store : Store} (conflict : fault.isConflict = true)
      (conflict' : fault'.isConflict = true) (head : store.heap.head = e.store.heap.head) :
      CommitsAlike e id t (.error fault, e.lost id t store fault)
        (.error fault', e.lost id t store fault')

variable {good : Object → Prop} {e : Engine} {id : TxnId} {t : Transaction} {listed : List Handle}

/-- How a commit ends that has collected the writes. -/
theorem result_commitBy (held : e.held.find? id = some t) (active : t.status = .active)
    (closed : t.depth = 0) {collect : Step Transaction (List PendingRecord)}
    {writes : List PendingRecord} (collected : collect t = .ok writes t.settled) :
    (commitBy collect id).result e =
      if writes.isEmpty then (.ok e.store.heap.version,
        e.endWith id (e.store.committedNothing id) t.settled (.committed e.store.heap.version))
      else match LockTable.acquire id (writes.map PendingRecord.handle) e.store.config.lockPolicy
          e.store.locks with
        | .error fault locks => (.error fault, e.endWith id
            ((Store.lockFailed id fault { e.store with locks }).aborted id (.failed fault))
            (markConflict fault t.settled) (.aborted (.failed fault)))
        | .ok guard locks =>
          match Heap.firstConflict t.snapshot e.store.heap.head writes with
          | some fault => (.error fault, e.lost id t (Store.unlock guard { e.store with
              locks
              heap := { e.store.heap with
                writeConflicts := e.store.heap.writeConflicts + 1 } }) fault)
          | none => (.ok e.store.heap.head.version.next, e.won id t guard locks writes) := by
  have hrun := beginCommitBy_of_active held active closed collected
  rw [Store.publish_eq] at hrun
  cases hempty : writes.isEmpty with
  | true =>
    rw [hempty, if_pos rfl] at hrun
    exact result_commit_of_settled hrun
  | false =>
    simp only [hempty, Bool.false_eq_true, if_false] at hrun ⊢
    cases hacquire : LockTable.acquire id (writes.map PendingRecord.handle) e.store.config.lockPolicy
        e.store.locks with
    | error fault locks =>
      simp only [hacquire] at hrun
      exact result_commit_of_error hrun
    | ok guard locks =>
      simp only [hacquire, Heap.commit, hempty] at hrun
      cases hcheck : Heap.firstConflict t.snapshot e.store.heap.head writes with
      | some fault =>
        simp only [hcheck] at hrun
        exact result_commit_of_error hrun
      | none =>
        simp only [hcheck] at hrun
        have hend := endCommit_eq (e := { e with
          store := { e.store with locks, heap := e.store.heap.publish writes }
          held := e.held.insert id t.settled }) (SortedMap.find?_insert_self _ _ _)
          ⟨guard, e.store.heap.head.version.next, writes.map PendingRecord.handle⟩
        simp only [SortedMap.insert_insert] at hend
        exact result_commit_of_published hrun hend

/-- The order of the writes does not show in what a commit leaves. -/
theorem alike_won {ok : PendingRecord → Prop} (built : Snapshot.Built ok e.store.heap.head)
    {writes writes' : List PendingRecord} (perm : writes.Perm writes')
    (distinct : (writes.map PendingRecord.handle).Nodup) (guard : LockGuard) (locks : LockTable) :
    (e.won id t guard locks writes).Alike (e.won id t guard locks writes') := by
  have hhandles := perm.map PendingRecord.handle
  have hmark := Transaction.markAll_of_perm hhandles .committed t.settled
  have hcontents := Snapshot.sameContents_extend built perm distinct
  have hlisteners := Listeners.notify_of_perm hhandles e.store.listeners e.store.heap.head.version.next
  constructor
  · simp only [won, endWith, Store.heap_released, Store.heap_conclude]
    exact ⟨rfl, rfl, hcontents⟩
  · simp only [won, endWith, Store.listeners_released]
    exact hlisteners
  · simp only [won, endWith, hmark, Store.conclude, hhandles.length_eq]
    cases (t.settled.markAll .committed (writes'.map PendingRecord.handle)).liveVersion <;> rfl

/-- A commit shows the same whichever order it meets the entries in, or it fails by a conflict
whichever order that is. -/
theorem commitBy_collectFrom {ok : PendingRecord → Prop} (held : e.held.find? id = some t)
    (sound : t.Sound good) (built : Snapshot.Built ok e.store.heap.head)
    (perm : listed.Perm t.entries.keys) :
    e.CommitsAlike id t ((commitBy (Transaction.collectFrom listed) id).result e)
      ((commit id).result e) := by
  by_cases ready : t.status = .active ∧ t.depth = 0
  swap
  · have hsame := commitBy_of_not_ready held ready (Transaction.collectFrom listed)
    have hresult : (commitBy (Transaction.collectFrom listed) id).result e = (commit id).result e := by
      simp only [Step.result, EStateM.run, hsame]
    rw [hresult]
    exact .same _
  obtain ⟨active, closed⟩ := ready
  obtain ⟨writes, hcollect, hperm⟩ := Transaction.collectFrom_perm sound perm
  have hdistinct : (writes.map PendingRecord.handle).Nodup :=
    (hperm.map PendingRecord.handle).nodup_iff.mpr t.nodup_writtenHandles
  have hempty : writes.isEmpty = t.pendingWrites.isEmpty := hperm.isEmpty_eq
  have hlocks := LockTable.acquire_of_perm (hperm.map PendingRecord.handle) id e.store.config.lockPolicy
  rw [result_commitBy held active closed hcollect, commit,
    result_commitBy held active closed (Transaction.collectWrites_eq sound), hempty, hlocks]
  split
  · exact .same _
  split
  · exact .same _
  · next guard locks hacquire =>
    cases hcheck : Heap.firstConflict t.snapshot e.store.heap.head t.pendingWrites with
    | none =>
      rw [(Heap.firstConflict_perm hperm).mpr hcheck]
      exact .committed (alike_won built hperm hdistinct guard locks)
    | some fault =>
      cases hcheck' : Heap.firstConflict t.snapshot e.store.heap.head writes with
      | none =>
        rw [(Heap.firstConflict_perm hperm).mp hcheck'] at hcheck
        cases hcheck
      | some fault' =>
        exact .lost (Heap.isConflict_of_firstConflict hcheck')
          (Heap.isConflict_of_firstConflict hcheck) rfl

end Engine

/-- Wherever a run has come to, a commit shows the same in whatever order the entries of its transaction
are met. -/
theorem Session.commit_in_any_order (config : Config) (actions : List Action) {id : TxnId}
    {t : Transaction} (held : ((ofConfig config).run actions).engine.held.find? id = some t)
    {listed : List Handle} (perm : listed.Perm t.entries.keys) :
    let e := ((ofConfig config).run actions).engine
    e.CommitsAlike id t ((Engine.commitBy (Transaction.collectFrom listed) id).result e)
      ((Engine.commit id).result e) := by
  have hsound := sound_reached config actions
  exact Engine.commitBy_collectFrom held (hsound.held id t held).sound hsound.built perm

end

end TransactionalHeap
