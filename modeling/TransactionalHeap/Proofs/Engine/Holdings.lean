import TransactionalHeap.Proofs.Engine.Invariant
import TransactionalHeap.Proofs.Locks.Holders

/-!
# What transactions hold of the store

In every session the lock table consists of the locks of the commits that are between their halves
(`Session.LockedByCommits`), and the live versions are the start versions of the transactions that
are active and not suspended, each counted as often as it occurs (`Session.LiveCounts`).
-/
namespace TransactionalHeap

/-! ## Live versions -/

namespace Liveness

variable (l : Liveness) (v u : Version)

theorem count_register : (l.register v).count u = l.count u + if u = v then 1 else 0 := by
  by_cases hsame : u = v
  · subst hsame
    simp [register, count]
  · simp [register, count, SortedMap.find?_insert_of_ne _ _ hsame, hsame]

theorem count_release : (l.release v).count u = l.count u - if u = v then 1 else 0 := by
  unfold release
  split
  · next hnone =>
    split
    · next hsame => simp [count, hsame, hnone]
    · rfl
  · next n hfound =>
    by_cases hsame : u = v
    · subst hsame
      split
      · next hlast =>
        simp only [count, SortedMap.find?_erase_self, hfound, if_true, Option.getD_none,
          Option.getD_some]
        omega
      · simp [count, hfound]
    · split
      · simp [count, SortedMap.find?_erase_of_ne _ hsame]
      · simp [count, SortedMap.find?_insert_of_ne _ _ hsame]

end Liveness

variable [Transactables]

theorem Store.count_released (s : Store) (live : Option Version) (v : Version) :
    (s.released live).liveness.count v = s.liveness.count v - if live = some v then 1 else 0 := by
  cases live with
  | none => rfl
  | some u => simp only [released, Liveness.count_release, Option.some.injEq, eq_comm]

/-- How many of the transactions are registered as live for a version. -/
def liveCount (held : SortedMap TxnId Transaction) (v : Version) : Nat :=
  held.values.countP fun t => t.liveVersion = some v

section LiveCount

variable {held : SortedMap TxnId Transaction} {id : TxnId} {t : Transaction}

theorem liveCount_insert (held : SortedMap TxnId Transaction) (id : TxnId) (t : Transaction)
    (v : Version) : liveCount (held.insert id t) v =
      liveCount (held.erase id) v + if t.liveVersion = some v then 1 else 0 := by
  simpa [liveCount] using SortedMap.countP_values_insert held id t fun t => t.liveVersion = some v

theorem liveCount_of_find? (h : held.find? id = some t) (v : Version) :
    liveCount held v = liveCount (held.erase id) v + if t.liveVersion = some v then 1 else 0 := by
  rw [← liveCount_insert, SortedMap.insert_of_find? h]

end LiveCount

namespace Session

variable {good : Object → Prop} {s s' : Session} {id : TxnId} {t t' : Transaction}

/-- The version that a transaction has to be live for: its start, while it is active and not
suspended. -/
def liveFor (s : Session) (id : TxnId) (t : Transaction) : Option Version :=
  match t.status, s.calls.find? id with
  | .active, some (.suspended _) => none
  | .active, _ => some t.startVersion
  | _, _ => none

/-- Every transaction is registered for the version that it has to be live for, and the live versions
are these registrations. -/
structure LiveCounts (s : Session) : Prop where
  live : ∀ id t, s.engine.held.find? id = some t → t.liveVersion = s.liveFor id t
  counted : ∀ v, s.engine.store.liveness.count v = liveCount s.engine.held v

theorem liveFor_congr (status : t'.status = t.status) (snapshot : t'.snapshot = t.snapshot)
    (calls : s'.calls.find? id = s.calls.find? id) : s'.liveFor id t' = s.liveFor id t := by
  simp only [liveFor, status, calls, Transaction.startVersion, snapshot]

theorem liveFor_of_inactive (inactive : t.status ≠ .active) : s.liveFor id t = none := by
  unfold liveFor
  cases hstatus : t.status with
  | active => exact absurd hstatus inactive
  | committed v => rfl
  | aborted reason => rfl

theorem liveFor_of_free (active : t.status = .active) (free : s.calls.find? id = none) :
    s.liveFor id t = some t.startVersion := by
  simp only [liveFor, active, free]

namespace LiveCounts

/-- The registration of a held transaction is among those that the store counts, so giving it up
takes one away. -/
theorem count_released (counts : s.LiveCounts) (held : s.engine.held.find? id = some t)
    (v : Version) :
    (s.engine.store.released t.liveVersion).liveness.count v +
      (if t.liveVersion = some v then 1 else 0) = s.engine.store.liveness.count v := by
  rw [Store.count_released, counts.counted, liveCount_of_find? held]
  split <;> omega

/-- One transaction is put in place of its former state, and its registration changes with it. -/
theorem replace (counts : s.LiveCounts) (old : s.engine.held.find? id = some t)
    (held : s'.engine.held = s.engine.held.insert id t') (live : t'.liveVersion = s'.liveFor id t')
    (calls : ∀ other, other ≠ id → s'.calls.find? other = s.calls.find? other)
    (count : ∀ v, s'.engine.store.liveness.count v + (if t.liveVersion = some v then 1 else 0) =
      s.engine.store.liveness.count v + if t'.liveVersion = some v then 1 else 0) :
    s'.LiveCounts where
  live other u hu := by
    rw [held] at hu
    rcases SortedMap.find?_of_insert hu with ⟨rfl, rfl⟩ | ⟨hne, hu⟩
    · exact live
    · rw [counts.live other u hu, liveFor_congr rfl rfl (calls other hne)]
  counted v := by
    have hcount := count v
    rw [counts.counted, liveCount_of_find? old] at hcount
    rw [held, liveCount_insert]
    omega

/-- A transaction that gives its registration up, be it for good or while it is suspended. -/
theorem giveUp (counts : s.LiveCounts) (old : s.engine.held.find? id = some t)
    (held : s'.engine.held = s.engine.held.insert id t') (unregistered : t'.liveVersion = none)
    (live : s'.liveFor id t' = none)
    (calls : ∀ other, other ≠ id → s'.calls.find? other = s.calls.find? other)
    (count : ∀ v, s'.engine.store.liveness.count v =
      (s.engine.store.released t.liveVersion).liveness.count v) : s'.LiveCounts := by
  refine counts.replace old held (unregistered.trans live.symm) calls fun v => ?_
  rw [count, counts.count_released old, unregistered]
  rfl

/-- A transaction that ends, over a store with the same live versions. -/
theorem endWith (counts : s.LiveCounts) (old : s.engine.held.find? id = some t)
    {marked : Transaction} (live : marked.liveVersion = t.liveVersion) {store : Store}
    (same : store.liveness = s.engine.store.liveness) {status : TransactionStatus}
    (inactive : status ≠ .active) {calls : SortedMap TxnId InCall}
    (others : ∀ other, other ≠ id → calls.find? other = s.calls.find? other) :
    LiveCounts { engine := s.engine.endWith id store marked status, calls } := by
  refine counts.giveUp old rfl rfl (liveFor_of_inactive inactive) others fun v => ?_
  simp only [Engine.endWith, Store.count_released, live, same]

/-- A transaction that stays registered as it is, while the live versions do not change. -/
theorem keep (counts : s.LiveCounts) (old : s.engine.held.find? id = some t)
    (held : s'.engine.held = s.engine.held.insert id t') (same : t'.liveVersion = t.liveVersion)
    (live : s'.liveFor id t' = s.liveFor id t)
    (calls : ∀ other, other ≠ id → s'.calls.find? other = s.calls.find? other)
    (store : s'.engine.store.liveness = s.engine.store.liveness) : s'.LiveCounts := by
  refine counts.replace old held ?_ calls fun v => by rw [store, same]
  rw [same, live, counts.live id t old]

end LiveCounts

/-- One action keeps the live versions in step with the transactions. -/
theorem Effect.liveCounts {a : Action} {log : Option Committed} (effect : Effect s a log s')
    (within : a.Within good) (sound : s.core.Sound good) (counts : s.LiveCounts) :
    s'.LiveCounts := by
  have hmark : ∀ (fault : Error) (t : Transaction),
      (Engine.markConflict fault t.settled).liveVersion = t.liveVersion := fun fault t => by
    rw [Engine.markConflict_rest]
    rfl
  have hothers : ∀ {id other : TxnId} (call : InCall), other ≠ id →
      (s.calls.insert id call).find? other = s.calls.find? other := fun call hne =>
    SortedMap.find?_insert_of_ne _ _ hne
  cases effect with
  | nothing mayRefuse => exact counts
  | usedHandle absent => exact ⟨counts.live, counts.counted⟩
  | @began _ past which =>
    refine ⟨fun id t held => ?_, fun v => ?_⟩
    · rcases SortedMap.find?_of_insert held with ⟨rfl, rfl⟩ | ⟨-, held⟩
      · exact (liveFor_of_free (t := .begun _ past) rfl (next_free sound)).symm
      · exact counts.live id t held
    · change (s.engine.store.liveness.register past.version).count v = liveCount (s.engine.held.insert
        s.engine.store.nextTransaction (.begun s.engine.store.nextTransaction past)) v
      rw [Liveness.count_register, counts.counted, liveCount_insert,
        SortedMap.erase_of_find? (next_absent sound)]
      simp only [Transaction.begun, Option.some.injEq, eq_comm]
  | @dropped id t held free =>
    refine ⟨fun other u hu => ?_, fun v => ?_⟩
    · exact counts.live other u (SortedMap.find?_of_erase hu).2
    · have hreleased := counts.count_released held v
      rw [counts.counted, liveCount_of_find? held] at hreleased
      exact Nat.add_right_cancel hreleased
  | @performed id op t held free =>
    obtain ⟨hrest, -⟩ := Transaction.performs_soundly within (sound.held id t held).sound
    refine counts.keep held rfl (by rw [hrest]) ?_ (fun _ _ => rfl) rfl
    exact liveFor_congr (by rw [hrest]) (by rw [hrest]) rfl
  | @attached id o t held free =>
    have within' : (Op.attachTo ⟨s.engine.nextHandle⟩ o).Within good := within
    obtain ⟨hrest, -⟩ := Transaction.performs_soundly within' (sound.held id t held).sound
    refine counts.keep held rfl (by rw [hrest]) ?_ (fun _ _ => rfl) rfl
    exact liveFor_congr (by rw [hrest]) (by rw [hrest]) rfl
  | aborted held free active => exact counts.endWith held (by rfl) (by rfl) (by simp) fun _ _ => rfl
  | unchanged ready nothing => exact counts.endWith ready.held (by rfl) (by rfl) (by simp) fun _ _ => rfl
  | @lockedOut id t fault locks ready something lost =>
    exact counts.endWith ready.held (hmark fault t) (by rfl) (by simp) fun _ _ => rfl
  | @conflicted id t fault guard locks heap ready something locked lost counted =>
    exact counts.endWith ready.held (hmark fault t) (by rfl) (by simp) fun _ _ => rfl
  | @published id t guard locks p ready something locked unconflicted which =>
    refine counts.keep ready.held rfl rfl ?_ (fun _ hne => hothers _ hne) rfl
    have active : t.status = .active := ready.active
    simp only [liveFor, Transaction.settled, active, ready.free, SortedMap.find?_insert_self,
      Transaction.startVersion]
  | @concluded id t p held calling =>
    refine counts.endWith held ?_ (by rfl) (by simp) fun _ hne => SortedMap.find?_erase_of_ne _ hne
    rw [Transaction.markAll_rest]
  | unparked held active free reads lost => exact ⟨counts.live, counts.counted⟩
  | @parked id t filed listeners p held active free reads registered which =>
    refine counts.keep held (SortedMap.insert_of_find? held).symm rfl ?_
      (fun _ hne => hothers _ hne) rfl
    simp only [liveFor, active, free, SortedMap.find?_insert_self]
  | @suspended id t p held calling =>
    refine counts.giveUp held rfl rfl ?_ (fun _ hne => hothers _ hne) fun _ => rfl
    have active : t.status = .active := (sound.calls_held held calling).active
    simp only [liveFor, active, SortedMap.find?_insert_self]
  | @woken id t p held calling =>
    have active : t.status = .active := (sound.calls_held held calling).active
    have hlive : t.liveVersion = none := by
      rw [counts.live id t held]
      simp only [liveFor, active, calling]
    refine counts.replace held rfl ?_ (fun _ hne => SortedMap.find?_erase_of_ne _ hne) fun v => ?_
    · simp only [liveFor, active, SortedMap.find?_erase_self, Transaction.startVersion]
    · rw [hlive, if_neg (by simp), Nat.add_zero]
      change (s.engine.store.liveness.register s.engine.store.heap.head.version).count v = _
      rw [Liveness.count_register]
      simp only [Option.some.injEq, eq_comm]

theorem liveCounts_run {actions : List Action} {s : Session}
    (within : ∀ a ∈ actions, a.Within good) (sound : s.core.Sound good) (counts : s.LiveCounts) :
    (s.run actions).LiveCounts :=
  kept_run (fun _ _ _ _ effect => effect.liveCounts) within sound counts

theorem liveCounts_ofConfig (config : Config) : (ofConfig config).LiveCounts where
  live id t held := by cases held
  counted v := rfl

/-! ## Locks -/

/-- The locks are those of the commits between their halves, each in the name of its transaction. -/
structure LockedByCommits (s : Session) : Prop where
  owner : ∀ id p, s.calls.find? id = some (.committing p) → p.guard.owner = id
  holds : ∀ h id, s.engine.store.locks.holderOf h = some id ↔
    ∃ p, s.calls.find? id = some (.committing p) ∧ h ∈ p.guard.held

namespace LockedByCommits

/-- Outside of its commit a transaction holds no lock. -/
theorem idle (locked : s.LockedByCommits) (uncommitting : ∀ p, s.calls.find? id ≠ some (.committing p)) :
    s.engine.store.locks.Idle id := by
  intro h hholder
  obtain ⟨p, hp, -⟩ := (locked.holds h id).mp hholder
  exact uncommitting p hp

theorem congr (locked : s.LockedByCommits) (locks : s'.engine.store.locks = s.engine.store.locks)
    (calls : ∀ id p, s'.calls.find? id = some (.committing p) ↔
      s.calls.find? id = some (.committing p)) : s'.LockedByCommits where
  owner id p hp := locked.owner id p ((calls id p).mp hp)
  holds h id := by simp only [locks, locked.holds, calls]

end LockedByCommits

/-- One action keeps the lock table in step with the commits. -/
theorem Effect.lockedByCommits {a : Action} {log : Option Committed} (effect : Effect s a log s')
    (locked : s.LockedByCommits) : s'.LockedByCommits := by
  have hfree : ∀ {id : TxnId}, s.calls.find? id = none →
      ∀ p, s.calls.find? id ≠ some (.committing p) := fun free p => by simp [free]
  cases effect with
  | nothing mayRefuse => exact locked
  | usedHandle absent | began which | performed held free | attached held free
  | unparked held active free reads lost => exact ⟨locked.owner, locked.holds⟩
  | dropped held free | aborted held free active =>
    exact locked.congr (Store.locks_released _ _) fun _ _ => Iff.rfl
  | unchanged ready nothing => exact locked.congr (Store.locks_released _ _) fun _ _ => Iff.rfl
  | @lockedOut id t fault locks ready something lost =>
    refine locked.congr ((Store.locks_released _ _).trans ?_) fun _ _ => Iff.rfl
    -- an acquisition that fails gives back what it took
    rcases LockTable.acquire_cases (locked.idle (hfree ready.free)) t.writtenHandles
      s.engine.store.config.lockPolicy with ⟨t', hrun, -, -⟩ | ⟨h, -, holder, -, hrun⟩
    · rw [lockFor, hrun] at lost
      cases lost
    · rw [lockFor, hrun] at lost
      cases lost
      rfl
  | @conflicted id t fault guard locks heap ready something acquired lost counted =>
    refine locked.congr ((Store.locks_released _ _).trans ?_) fun _ _ => Iff.rfl
    rcases LockTable.acquire_cases (locked.idle (hfree ready.free)) t.writtenHandles
      s.engine.store.config.lockPolicy with ⟨t', hrun, grants, free⟩ | ⟨h, -, holder, -, hrun⟩
    · rw [lockFor, hrun] at acquired
      cases acquired
      exact LockTable.drop_of_grants grants fun h hh => free h (Handle.mem_sortDistinct.mp hh)
    · rw [lockFor, hrun] at acquired
      cases acquired
  | @published id t guard locks p ready something acquired unconflicted which =>
    have hidle := locked.idle (hfree ready.free)
    rcases LockTable.acquire_cases hidle t.writtenHandles
      s.engine.store.config.lockPolicy with ⟨t', hrun, grants, free⟩ | ⟨h, -, holder, -, hrun⟩
    · rw [lockFor, hrun] at acquired
      cases acquired
      subst which
      refine ⟨fun other p hp => ?_, fun h other => ?_⟩
      · rcases SortedMap.find?_of_insert hp with ⟨rfl, hcall⟩ | ⟨-, hp⟩
        · cases hcall
          rfl
        · exact locked.owner other p hp
      · change locks.holderOf h = some other ↔ _
        rw [grants h]
        by_cases hsame : other = id
        · subst hsame
          simp only [SortedMap.find?_insert_self]
          split
          · next hmem => simp [hmem]
          · next hmem => simp [hmem, hidle h]
        · simp only [SortedMap.find?_insert_of_ne _ _ hsame]
          rw [← locked.holds h other]
          split
          · next hmem => simp [free h (Handle.mem_sortDistinct.mp hmem), Ne.symm hsame]
          · rfl
    · rw [lockFor, hrun] at acquired
      cases acquired
  | @concluded id t p held calling =>
    have howner := locked.owner id p calling
    refine ⟨fun other q hq => ?_, fun h other => ?_⟩
    · exact locked.owner other q (SortedMap.find?_of_erase hq).2
    · have hlocks : (s.engine.endWith id (s.engine.store.conclude id p)
          (t.markAll .committed p.handles) (.committed p.version)).store.locks =
          s.engine.store.locks.drop p.guard := Store.locks_released _ _
      rw [hlocks, LockTable.holderOf_drop, howner]
      by_cases hsame : other = id
      · subst hsame
        simp only [SortedMap.find?_erase_self]
        split
        · simp
        · next hkept =>
          have hnot : s.engine.store.locks.holderOf h ≠ some other := fun hholder => by
            obtain ⟨q, hq, hmem⟩ := (locked.holds h other).mp hholder
            rw [calling] at hq
            cases hq
            exact hkept ⟨hmem, hholder⟩
          simp [hnot]
      · simp only [SortedMap.find?_erase_of_ne _ hsame]
        rw [← locked.holds h other]
        split
        · next hdropped => simp [hdropped.2, Ne.symm hsame]
        · rfl
  | parked held active free reads registered which =>
    exact locked.congr rfl (committing_insert (hfree free) (by simp))
  | @suspended id t p held calling =>
    exact locked.congr (Store.locks_released _ _)
      (committing_insert (fun q hq => by rw [calling] at hq; cases hq) (by simp))
  | @woken id t p held calling =>
    exact locked.congr rfl (committing_erase fun q hq => by rw [calling] at hq; cases hq)

theorem lockedByCommits_run {actions : List Action} {s : Session}
    (within : ∀ a ∈ actions, a.Within good) (sound : s.core.Sound good)
    (locked : s.LockedByCommits) : (s.run actions).LockedByCommits :=
  kept_run (fun _ _ _ _ effect _ _ => effect.lockedByCommits) within sound locked

theorem lockedByCommits_run_any {s : Session} (sound : s.core.Sound fun _ => True)
    (locked : s.LockedByCommits) (actions : List Action) : (s.run actions).LockedByCommits :=
  lockedByCommits_run (fun a _ => a.within_any) sound locked

theorem lockedByCommits_ofConfig (config : Config) : (ofConfig config).LockedByCommits where
  owner id p hp := by cases hp
  holds h id := by
    constructor
    · intro hholder
      cases hholder
    · rintro ⟨p, hp, -⟩
      cases hp

end Session

end TransactionalHeap
