import TransactionalHeap.Object.Stock
import TransactionalHeap.Proofs.Engine.Holdings

/-!
# What a commit does

A commit with nobody in between ends its transaction in one of three ways (`Engine.CommitEnds`): it
has nothing to write, it fails over a lock or a conflict, or it publishes all that has changed. The
first needs nothing, the last is what happens whenever nothing stands against it, and from the end of
a run of sessions all of it follows for every transaction (`Session.commit_publishes_changes`).
-/
namespace TransactionalHeap

section

variable [Transactables]

/-! ## The changed set in the head -/

theorem Transaction.lastWrite_pendingWrites (t : Transaction) (h : Handle) :
    lastWrite h t.pendingWrites = (t.changed.find? h).map (.ofObject h) := by
  cases hlast : lastWrite h t.pendingWrites with
  | none =>
    cases hchanged : t.changed.find? h with
    | none => rfl
    | some o =>
      have hwrite : PendingRecord.ofObject h o ∈ t.pendingWrites :=
        mem_pendingWrites_iff.mpr ⟨o, hchanged, rfl⟩
      exact absurd rfl (lastWrite_eq_none_iff.mp hlast _ hwrite)
  | some w =>
    obtain ⟨hmem, rfl⟩ := lastWrite_mem hlast
    obtain ⟨o, hchanged, hw⟩ := mem_pendingWrites_iff.mp hmem
    rw [hchanged, Option.map_some, ← hw]

/-- A snapshot follows another one by the given changes: it is the next version, it has the new
revision of every changed object, and of all else what was there before. -/
structure Snapshot.FollowsBy (changes : SortedMap Handle Object) (before after : Snapshot) : Prop where
  version : after.version = before.version.next
  past : after.chain = after :: before.chain
  changed : ∀ h o, changes.find? h = some o →
    after.read h = some ⟨h, after.version, o.type, ⟨o.type⟩, o.dematerialize⟩
  kept : ∀ h, changes.find? h = none → after.read h = before.read h

theorem Snapshot.Built.followsBy {ok : PendingRecord → Prop} {head : Snapshot}
    (built : head.Built ok) (t : Transaction) :
    FollowsBy t.changed head (head.extend t.pendingWrites) where
  version := rfl
  past := rfl
  changed h o ho := by
    rw [read_extend built.ordered, t.lastWrite_pendingWrites, ho]
    rfl
  kept h hnone := by
    rw [read_extend built.ordered, t.lastWrite_pendingWrites, hnone]
    rfl

/-! ## The entries of an ended transaction -/

theorem Entry.Sound.status_settled {good : Object → Prop} {s : Snapshot} {h : Handle} {e : Entry}
    (sound : e.Sound good s h) (unchanged : e.changed = none) :
    e.settled.status = if e.status = .dirty then .clean else e.status := by
  cases sound with
  | fresh o absent isGood => cases unchanged
  | loaded r object stored yielded => rfl
  | changed r o stored sameType isGood =>
    by_cases hsame : o.dematerialize = r.fields
    · simp [Entry.settled, isChanged, hsame]
    · simp [Entry.changed, isChanged, hsame] at unchanged

namespace Transaction

variable {good : Object → Prop} {t : Transaction} {h : Handle}

/-- The entries of an ended transaction answer for how they stood at the end. -/
theorem statusOf_finish (t : Transaction) (status : TransactionStatus) (h : Handle) :
    (t.finish status).statusOf h = (t.entries.find? h).map Entry.status :=
  SortedMap.find?_map _ _ _

theorem find?_markAll (status : EntryStatus) (handles : List Handle) (t : Transaction) (h : Handle) :
    (t.markAll status handles).entries.find? h =
      (t.entries.find? h).map fun e => if h ∈ handles then { e with status } else e := by
  induction handles generalizing t with
  | nil =>
    change t.entries.find? h = _
    simp
  | cons first later ih =>
    have hstep : t.markAll status (first :: later) =
        markAll status later { t with
          entries := t.entries.modify first fun e => { e with status } } := rfl
    rw [hstep, ih]
    by_cases hsame : h = first
    · subst hsame
      rw [SortedMap.find?_modify_self, Option.map_map]
      congr 1
      funext e
      by_cases hlater : h ∈ later <;> simp [hlater]
    · simp [SortedMap.find?_modify_of_ne _ _ hsame, hsame]

theorem mem_writtenHandles_iff : h ∈ t.writtenHandles ↔ ∃ o, t.changed.find? h = some o := by
  simp only [writtenHandles, List.mem_map, mem_pendingWrites_iff]
  constructor
  · rintro ⟨w, ⟨o, ho, -⟩, rfl⟩
    exact ⟨o, ho⟩
  · rintro ⟨o, ho⟩
    exact ⟨.ofObject h o, ⟨o, ho, rfl⟩, rfl⟩

/-- How an entry stands after a commit: what was written is committed, and what was opened without
being changed is clean. -/
def statusAfterCommit (t : Transaction) (h : Handle) (e : Entry) : EntryStatus :=
  if t.changed.contains h then .committed else if e.status = .dirty then .clean else e.status

theorem Sound.status_settled (sound : t.Sound good) {e : Entry} (he : t.entries.find? h = some e)
    (unchanged : t.changed.find? h = none) : e.settled.status = t.statusAfterCommit h e := by
  rw [statusAfterCommit, SortedMap.contains_eq_false_iff.mpr unchanged]
  rw [find?_changed, he] at unchanged
  exact (sound.entries h e he).status_settled unchanged

/-- The entries of a transaction that has written what it changed. -/
theorem Sound.statusOf_written (sound : t.Sound good) (status : TransactionStatus) (h : Handle) :
    ((t.settled.markAll .committed t.writtenHandles).finish status).statusOf h =
      (t.entries.find? h).map (t.statusAfterCommit h) := by
  rw [statusOf_finish, find?_markAll, settled, SortedMap.find?_map]
  cases he : t.entries.find? h with
  | none => rfl
  | some e =>
    refine congrArg some ?_
    dsimp only
    cases hchanged : t.changed.find? h with
    | none =>
      have hkept : h ∉ t.writtenHandles := fun hwritten => by
        obtain ⟨o, ho⟩ := mem_writtenHandles_iff.mp hwritten
        rw [hchanged] at ho
        cases ho
      rw [if_neg hkept]
      exact sound.status_settled he hchanged
    | some o =>
      rw [if_pos (mem_writtenHandles_iff.mpr ⟨o, hchanged⟩), statusAfterCommit,
        if_pos (SortedMap.contains_iff.mpr ⟨o, hchanged⟩)]

/-- The entries of a transaction that had nothing to write. -/
theorem Sound.statusOf_unchanged (sound : t.Sound good) (nothing : t.changed = ∅)
    (status : TransactionStatus) (h : Handle) :
    (t.settled.finish status).statusOf h = (t.entries.find? h).map (t.statusAfterCommit h) := by
  rw [statusOf_finish, settled, SortedMap.find?_map]
  cases he : t.entries.find? h with
  | none => rfl
  | some e => exact congrArg some (sound.status_settled he (by rw [nothing]; rfl))

end Transaction

/-! ## The three ends of a commit -/

namespace Engine

variable {good : Object → Prop} {e e' : Engine} {id : TxnId} {t : Transaction}
  {result : Except Error Version}

/-- Nothing stands against writing the changes: no lock on any of it, and no newer version. -/
structure Unopposed (e : Engine) (t : Transaction) : Prop where
  unlocked : ∀ h o, t.changed.find? h = some o → e.store.locks.holderOf h = none
  unchanged : ∀ h o, t.changed.find? h = some o → ∀ seen, t.snapshot.versionOf h = some seen →
    e.store.heap.head.versionOf h = some seen

/-- How a commit ends. -/
inductive CommitEnds (e : Engine) (id : TxnId) (t : Transaction) :
    Except Error Version → Engine → Prop
  | unchanged (nothing : t.changed = ∅) : CommitEnds e id t (.ok e.store.heap.version)
      (e.endWith id (e.store.committedNothing id) t.settled (.committed e.store.heap.version))
  | failed {fault : Error} {store : Store} {marked : Transaction} (opposed : ¬ e.Unopposed t)
      (head : store.heap.head = e.store.heap.head) (locks : store.locks = e.store.locks)
      (listeners : store.listeners = e.store.listeners)
      (liveness : store.liveness = e.store.liveness)
      (rest : marked = { t with entries := marked.entries }) :
      CommitEnds e id t (.error fault)
        (e.endWith id store marked (.aborted (.failed fault)))
  | published {store : Store} (something : t.changed ≠ ∅) (unopposed : e.Unopposed t)
      (heap : store.heap = e.store.heap.publish t.pendingWrites)
      (locks : store.locks = e.store.locks) (liveness : store.liveness = e.store.liveness) :
      CommitEnds e id t (.ok e.store.heap.version.next)
        (e.endWith id store (t.settled.markAll .committed t.writtenHandles)
          (.committed e.store.heap.version.next))

section Result

variable {collect : Step Transaction (List PendingRecord)}

theorem result_commit_of_settled {v : Version}
    (hrun : beginCommitBy collect id e = .ok (.settled v) e') :
    (commitBy collect id).result e = (.ok v, e') :=
  Step.result_eq_of_ok (bind_of_ok hrun)

theorem result_commit_of_error {fault : Error}
    (hrun : beginCommitBy collect id e = .error fault e') :
    (commitBy collect id).result e = (.error fault, e') :=
  Step.result_eq_of_error (bind_of_error hrun)

theorem result_commit_of_published {p : Publication} {e'' : Engine}
    (hrun : beginCommitBy collect id e = .ok (.published p) e'')
    (hend : endCommit id p e'' = .ok p.version e') :
    (commitBy collect id).result e = (.ok p.version, e') :=
  Step.result_eq_of_ok ((bind_of_ok hrun).trans hend)

end Result

/-- Every commit of a sound transaction that holds no lock yet has one of these ends. -/
theorem commit_ends (held : e.held.find? id = some t) (active : t.status = .active)
    (closed : t.frames = []) (sound : t.Sound good) (idle : e.store.locks.Idle id) :
    ∃ result e', (commit id).result e = (result, e') ∧ CommitEnds e id t result e' := by
  have hrun := beginCommit_of_sound held active closed sound
  have hmark : ∀ fault, markConflict fault t.settled =
      { t with entries := (markConflict fault t.settled).entries } := fun fault => by
    rw [markConflict_rest]
    rfl
  by_cases hnothing : t.changed = ∅
  · rw [Transaction.pendingWrites_eq_nil_iff.mpr hnothing] at hrun
    exact ⟨_, _, result_commit_of_settled hrun, .unchanged hnothing⟩
  have hwrites : ¬ t.pendingWrites.isEmpty = true := fun hempty =>
    hnothing (Transaction.pendingWrites_eq_nil_iff.mp (List.isEmpty_iff.mp hempty))
  rw [if_neg hwrites] at hrun
  rcases LockTable.acquire_cases idle t.writtenHandles e.store.config.lockPolicy with
    ⟨locks, hlock, grants, free⟩ | ⟨h, hmem, holder, hholder, hlock⟩
  · have hunlocked : ∀ h o, t.changed.find? h = some o → e.store.locks.holderOf h = none :=
      fun h o ho => free h (Transaction.mem_writtenHandles_iff.mpr ⟨o, ho⟩)
    have hgivenBack : locks.drop ⟨id, Handle.sortDistinct t.writtenHandles⟩ = e.store.locks :=
      LockTable.drop_of_grants grants fun h hh => free h (Handle.mem_sortDistinct.mp hh)
    rw [hlock] at hrun
    cases hcheck : Heap.firstConflict t.snapshot e.store.heap.head t.pendingWrites with
    | some fault =>
      simp only [hcheck] at hrun
      refine ⟨_, _, result_commit_of_error hrun, .failed ?_ rfl hgivenBack rfl rfl (hmark fault)⟩
      intro hunopposed
      have hnone : Heap.firstConflict t.snapshot e.store.heap.head t.pendingWrites = none := by
        refine Heap.firstConflict_eq_none_iff.mpr fun w hw seen hseen => ?_
        obtain ⟨o, ho, -⟩ := Transaction.mem_pendingWrites_iff.mp hw
        exact hunopposed.unchanged w.handle o ho seen hseen
      rw [hcheck] at hnone
      cases hnone
    | none =>
      simp only [hcheck] at hrun
      have hend := endCommit_eq (e := { e with
        store := { e.store with locks, heap := e.store.heap.publish t.pendingWrites }
        held := e.held.insert id t.settled }) (SortedMap.find?_insert_self _ _ _)
        ⟨⟨id, Handle.sortDistinct t.writtenHandles⟩, e.store.heap.head.version.next,
          t.writtenHandles⟩
      simp only [SortedMap.insert_insert] at hend
      refine ⟨_, _, result_commit_of_published hrun hend,
        .published hnothing ⟨hunlocked, fun h o ho => ?_⟩ rfl hgivenBack rfl⟩
      exact Heap.firstConflict_eq_none_iff.mp hcheck (.ofObject h o)
        (Transaction.mem_pendingWrites_iff.mpr ⟨o, ho, rfl⟩)
  · rw [hlock] at hrun
    refine ⟨_, _, result_commit_of_error hrun, .failed ?_ rfl rfl rfl rfl (hmark _)⟩
    intro hunopposed
    obtain ⟨o, ho⟩ := Transaction.mem_writtenHandles_iff.mp hmem
    rw [hunopposed.unlocked h o ho] at hholder
    cases hholder

/-- What every commit leaves: the transaction in place of its former state and no longer registered,
the locks as they were, and one registration for its start less than before. -/
structure EndsIn (e : Engine) (id : TxnId) (t : Transaction) (e' : Engine) (t' : Transaction) :
    Prop where
  held : e'.held = e.held.insert id t'
  locks : e'.store.locks = e.store.locks
  unregistered : t'.liveVersion = none
  givenBack : ∀ v, e'.store.liveness.count v + (if v = t.startVersion then 1 else 0) =
    e.store.liveness.count v

end Engine

namespace Session

variable {s : Session} {id : TxnId} {t : Transaction}

/-- Ending a transaction gives its registration back. -/
theorem LiveCounts.endsIn (counts : s.LiveCounts) (held : s.engine.held.find? id = some t)
    (active : t.status = .active) (free : s.calls.find? id = none) {store : Store}
    {marked : Transaction} {status : TransactionStatus} (locks : store.locks = s.engine.store.locks)
    (liveness : store.liveness = s.engine.store.liveness)
    (live : marked.liveVersion = t.liveVersion) :
    s.engine.EndsIn id t (s.engine.endWith id store marked status) (marked.finish status) where
  held := rfl
  locks := (Store.locks_released _ _).trans locks
  unregistered := rfl
  givenBack v := by
    have hreleased := counts.count_released held v
    have hlive : t.liveVersion = some t.startVersion :=
      (counts.live id t held).trans (liveFor_of_free active free)
    simp only [Store.count_released, hlive, Option.some.injEq, eq_comm] at hreleased
    simp only [Engine.endWith, Store.count_released, live, liveness, hlive, Option.some.injEq,
      eq_comm]
    exact hreleased

/-- However a run has left the store and the other transactions, a commit of an active transaction
without open branches publishes what the transaction has changed, all of it or nothing.

Without a change there is nothing to publish and nothing to fail over. A commit of changes succeeds
if nothing stands against it. Then the new head follows the old one by the changes, and the entries
that were written are committed. A commit that fails leaves the head as it is. In every case the
transaction has ended, and locks, other transactions and other registrations are as before. -/
theorem commit_publishes_changes (config : Config) (actions : List Action)
    (held : ((ofConfig config).run actions).engine.held.find? id = some t)
    (active : t.status = .active) (closed : t.depth = 0)
    (free : ((ofConfig config).run actions).calls.find? id = none) :
    let e := ((ofConfig config).run actions).engine
    ∃ result e' t', (Engine.commit id).result e = (result, e') ∧ e.EndsIn id t e' t' ∧
      (t.changed = ∅ → result = .ok e.store.heap.version ∧ e'.store.heap = e.store.heap) ∧
      ((∃ v, result = .ok v) ↔ e.Unopposed t) ∧
      match result with
      | .ok v => t'.status = .committed v ∧
          (∀ h, t'.statusOf h = (t.entries.find? h).map (t.statusAfterCommit h)) ∧
          (t.changed ≠ ∅ → v = e.store.heap.version.next ∧
            Snapshot.FollowsBy t.changed e.store.heap.head e'.store.heap.head)
      | .error fault => t'.status = .aborted (.failed fault) ∧
          e'.store.heap.head = e.store.heap.head ∧ e'.store.listeners = e.store.listeners := by
  intro e
  have hsound := sound_reached config actions
  have htSound := (hsound.held id t held).sound
  have hcounts : ((ofConfig config).run actions).LiveCounts :=
    liveCounts_run (fun a _ => a.within_any) (sound_ofConfig config) (liveCounts_ofConfig config)
  have hlocked : ((ofConfig config).run actions).LockedByCommits :=
    lockedByCommits_run (fun a _ => a.within_any) (sound_ofConfig config)
      (lockedByCommits_ofConfig config)
  have hidle : e.store.locks.Idle id := hlocked.idle fun p hp => by
    rw [free] at hp
    cases hp
  obtain ⟨result, e', hrun, hends⟩ := Engine.commit_ends held active
    (List.length_eq_zero_iff.mp closed) htSound hidle
  refine ⟨result, e', ?_⟩
  cases hends with
  | unchanged nothing =>
    have hunopposed : e.Unopposed t := by
      constructor <;> (intro h o ho; rw [nothing] at ho; cases ho)
    exact ⟨_, hrun, hcounts.endsIn held active free rfl rfl rfl,
      fun _ => ⟨rfl, Store.heap_released _ _⟩, iff_of_true ⟨_, rfl⟩ hunopposed, rfl,
      htSound.statusOf_unchanged nothing _, fun something => absurd nothing something⟩
  | @failed fault store marked opposed head locks listeners liveness rest =>
    have hlive : marked.liveVersion = t.liveVersion := by rw [rest]
    refine ⟨_, hrun, hcounts.endsIn held active free locks liveness hlive, fun nothing => ?_,
      iff_of_false (fun ⟨v, hv⟩ => by cases hv) opposed, rfl, ?_, ?_⟩
    · refine absurd ?_ opposed
      constructor <;> (intro h o ho; rw [nothing] at ho; cases ho)
    · simp only [Engine.endWith, Store.heap_released, head]
      rfl
    · simp only [Engine.endWith, Store.listeners_released, listeners]
      rfl
  | @published store something unopposed heap locks liveness =>
    have hlive : (t.settled.markAll .committed t.writtenHandles).liveVersion = t.liveVersion := by
      rw [Transaction.markAll_rest]
      rfl
    refine ⟨_, hrun, hcounts.endsIn held active free locks liveness hlive,
      fun nothing => absurd nothing something, iff_of_true ⟨_, rfl⟩ unopposed, rfl,
      htSound.statusOf_written _, fun _ => ⟨rfl, ?_⟩⟩
    simp only [Engine.endWith, Store.heap_released, heap]
    exact hsound.built.followsBy t

end Session

end

namespace Session

/-- A transaction opens two committed counters for a change, changes one of them, and attaches a
third. Another one has begun at the same version. -/
def revising : List Action :=
  [.begin, .attach 1 (.counter 10), .attach 1 (.counter 20), .publish 1, .conclude 1,
    .begin, .begin, .perform 2 (.update .counter ⟨1⟩ fun _ => .ok (.counter 15)),
    .perform 2 (.write .counter ⟨2⟩), .attach 2 (.counter 30)]

/-- Its commit publishes the changed counter and the new one, and leaves the other as it was. -/
theorem commit_publishes_changes_sample :
    let e := ((ofConfig {}).run revising).engine
    ∃ e' t', (Engine.commit 2).result e = (.ok 2, e') ∧ e'.held = e.held.insert 2 t' ∧
      e'.store.heap.head.read ⟨1⟩ = some ⟨⟨1⟩, 2, .counter, ⟨.counter⟩, [.int 15]⟩ ∧
      e'.store.heap.head.read ⟨3⟩ = some ⟨⟨3⟩, 2, .counter, ⟨.counter⟩, [.int 30]⟩ ∧
      e'.store.heap.head.read ⟨2⟩ = e.store.heap.head.read ⟨2⟩ ∧
      t'.statusOf ⟨2⟩ = some .clean ∧ e'.store.liveness.count 1 = 1 := by
  intro e
  obtain ⟨t, held⟩ := Option.isSome_iff_exists.mp
    (by decide +kernel : (e.held.find? 2).isSome = true)
  have hknown : (e.held.find? 2).map (fun t => (t.status, t.depth, t.startVersion,
      t.changed.find? ⟨1⟩, t.changed.find? ⟨2⟩, t.changed.find? ⟨3⟩,
      (t.entries.find? ⟨2⟩).map (t.statusAfterCommit ⟨2⟩))) =
      some (.active, 0, 1, some (.counter 15), none, some (.counter 30), some .clean) := by
    rfl
  rw [held] at hknown
  simp only [Option.map_some, Option.some.injEq, Prod.mk.injEq] at hknown
  obtain ⟨active, closed, hstart, hone, htwo, hthree, hclean⟩ := hknown
  have free : ((ofConfig {}).run revising).calls.find? 2 = none := by rfl
  obtain ⟨result, e', t', hrun, hends, -, -, hresult⟩ :=
    commit_publishes_changes {} revising held active closed free
  have hok : ((Engine.commit 2).result e).1 = .ok 2 := by decide +kernel
  have hcounted : e.store.liveness.count 1 = 2 := by decide +kernel
  rw [hrun] at hok
  subst hok
  obtain ⟨-, hstatuses, hchanges⟩ := hresult
  have hsomething : t.changed ≠ ∅ := fun hnothing => by
    rw [hnothing] at hone
    cases hone
  obtain ⟨hversion, hfollows⟩ := hchanges hsomething
  have hnext : e'.store.heap.head.version = 2 := hfollows.version.trans hversion.symm
  refine ⟨e', t', hrun, hends.held, ?_, ?_, hfollows.kept _ htwo, (hstatuses _).trans hclean, ?_⟩
  · rw [hfollows.changed _ _ hone, hnext]
    rfl
  · rw [hfollows.changed _ _ hthree, hnext]
    rfl
  · have hgivenBack := hends.givenBack 1
    rw [hstart, if_pos rfl] at hgivenBack
    exact Nat.add_right_cancel (hgivenBack.trans hcounted)

end Session

end TransactionalHeap
