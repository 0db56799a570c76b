import TransactionalHeap.Object.Stock
import TransactionalHeap.Proofs.Engine.Invariant
import TransactionalHeap.Proofs.Heap.Commit

/-!
# Replaying commits one at a time

Only what a transaction writes is checked when it commits, and it may have read from an old
snapshot. Yet if it has overwritten everything it read, the check covers its reads: the head that
its commit extends still has what it read (`Committed.Fits.rereads_eq`). So the transaction might as
well have run there alone, and a session's commits replayed in their order give the session's heap
(`Session.replay_commits`).
-/
namespace TransactionalHeap

section

variable [Transactables]

namespace Transaction

variable {good : Object → Prop} {t : Transaction}

/-- A transaction counts as having read what it would wait for in a retry. -/
theorem handles_readValues (t : Transaction) : t.readValues.map Prod.fst = t.readSet := by
  simp only [readValues, readSet, SortedMap.keys, SortedMap.filterMap, SortedMap.filter]
  induction t.entries.entries with
  | nil => rfl
  | cons binding later ih =>
    cases horigin : binding.2.origin with
    | none => simpa [Entry.isReadDependency, horigin] using ih
    | some r => simpa [Entry.isReadDependency, horigin] using ih

/-- What a transaction has read is what its snapshot has. -/
theorem Sound.stored_of_read (sound : t.Sound good) {read : ReadValue}
    (hread : read ∈ t.readValues) :
    ∃ r, t.snapshot.read read.1 = some r ∧ r.content = read.2 := by
  have hfound := SortedMap.mem_entries_iff.mp hread
  rw [SortedMap.find?_filterMap] at hfound
  obtain ⟨e, he, hcontent⟩ := Option.bind_eq_some_iff.mp hfound
  obtain ⟨r, horigin, hr⟩ := Option.map_eq_some_iff.mp hcontent
  exact ⟨r, (sound.entries read.1 e he).origin_stored horigin, hr⟩

/-- What a transaction would wait for was there when it started. -/
theorem Sound.stored_of_mem_readSet (sound : t.Sound good) {h : Handle} (hmem : h ∈ t.readSet) :
    ∃ r, t.snapshot.read h = some r := by
  rw [← handles_readValues] at hmem
  obtain ⟨read, hread, rfl⟩ := List.mem_map.mp hmem
  obtain ⟨r, hr, -⟩ := sound.stored_of_read hread
  exact ⟨r, hr⟩

end Transaction

namespace Committed

/-- A commit fits the head that it extends. -/
structure Fits (head : Snapshot) (T : Committed) : Prop where
  past : T.start ∈ head.chain
  stored : ∀ read ∈ T.reads, ∃ r, T.start.read read.1 = some r ∧ r.content = read.2
  unconflicted : Heap.firstConflict T.start head T.writes = none
  nonempty : T.writes ≠ []
  version : T.version = head.version.next

/-- Every commit of a log fits the head that those before it leave. -/
def Follow : Snapshot → List Committed → Prop
  | _, [] => True
  | head, T :: later => T.Fits head ∧ Follow (head.extend T.writes) later

/-- The transaction published every handle it had read. -/
def CoversReads (T : Committed) : Prop := ∀ read ∈ T.reads, ∃ w ∈ T.writes, w.handle = read.1

/-- What there is elsewhere under a handle that was read. -/
def reread (s : Snapshot) (read : ReadValue) : Option ReadValue :=
  (s.read read.1).map fun r => (read.1, r.content)

def rereads (T : Committed) (s : Snapshot) : List ReadValue := T.reads.filterMap (reread s)

variable {T : Committed} {head : Snapshot}

/-- The head that the commit extends has what the transaction read long before. -/
theorem Fits.reread_eq {ok : PendingRecord → Prop} (fits : T.Fits head)
    (built : Snapshot.Built ok head) (room : head.depth < 2 ^ 64) (covers : T.CoversReads)
    {read : ReadValue} (hread : read ∈ T.reads) : reread head read = some read := by
  obtain ⟨r, hr, hcontent⟩ := fits.stored read hread
  obtain ⟨w, hw, hhandle⟩ := covers read hread
  have hthen : T.start.versionOf read.1 = some r.version := by
    rw [(built.of_mem_chain fits.past).1.versionOf_eq_read, hr]
    rfl
  have hunchanged := Heap.firstConflict_eq_none_iff.mp fits.unconflicted w hw
  rw [Heap.Unchanged, hhandle] at hunchanged
  have hnow := hunchanged r.version hthen
  rw [reread, ← built.read_eq_of_versionOf_eq room fits.past hthen hnow, hr, Option.map_some,
    hcontent]

theorem Fits.rereads_eq {ok : PendingRecord → Prop} (fits : T.Fits head)
    (built : Snapshot.Built ok head) (room : head.depth < 2 ^ 64) (covers : T.CoversReads) :
    T.rereads head = T.reads := by
  have hsame : ∀ read ∈ T.reads, reread head read = some read := fun read hread =>
    fits.reread_eq built room covers hread
  rw [rereads]
  generalize T.reads = reads at hsame
  induction reads with
  | nil => rfl
  | cons read later ih =>
    rw [List.filterMap_cons_some (hsame read List.mem_cons_self),
      ih fun other hother => hsame other (List.mem_cons_of_mem _ hother)]

/-- Successive commits have successive versions. -/
theorem Follow.versions {log : List Committed} (follow : Follow head log) :
    log.map version = (List.range log.length).map fun k => head.version + UInt64.ofNat (k + 1) := by
  induction log generalizing head with
  | nil => rfl
  | cons T later ih =>
    obtain ⟨fits, hlater⟩ := follow
    have hshift : ∀ k, (head.extend T.writes).version + UInt64.ofNat (k + 1) =
        head.version + UInt64.ofNat (k + 1 + 1) := by
      intro k
      rw [Snapshot.version_extend, Version.next, UInt64.add_assoc, UInt64.add_comm 1,
        UInt64.ofNat_add (k + 1) 1]
      rfl
    rw [List.map_cons, ih hlater, List.length_cons, List.range_succ_eq_map, List.map_cons,
      List.map_map, fits.version]
    simp only [hshift]
    rfl

/-- A record that is there after some commits was there before, or one of them has written it. -/
theorem Follow.provenance (follow : Follow head log) (built : Snapshot.Built (fun _ => True) head)
    {h : Handle} {r : Record} (stored : (head.extendAll (log.map writes)).read h = some r) :
    head.read h = some r ∨ ∃ T ∈ log, ∃ w ∈ T.writes, w.handle = h ∧ r = w.stamp T.version := by
  induction log generalizing head with
  | nil => exact .inl stored
  | cons T later ih =>
    obtain ⟨fits, hlater⟩ := follow
    rcases ih hlater (built.extend fun _ _ => trivial) stored with
      hstored | ⟨U, hU, w, hw, hhandle, hr⟩
    · rw [Snapshot.read_extend built.ordered] at hstored
      cases hlast : lastWrite h T.writes with
      | none =>
        rw [hlast] at hstored
        exact .inl hstored
      | some w =>
        obtain ⟨hmem, hhandle⟩ := lastWrite_mem hlast
        rw [hlast] at hstored
        refine .inr ⟨T, List.mem_cons_self, w, hmem, hhandle, ?_⟩
        rw [fits.version]
        exact (Option.some.inj hstored).symm
    · exact .inr ⟨U, List.mem_cons_of_mem _ hU, w, hw, hhandle, hr⟩

end Committed

namespace Heap

variable (program : TxnId → List ReadValue → List PendingRecord)

/-- Run a transaction again, alone: it reads the handles that it read before, and what it makes of
what is there is committed. -/
def replayOne (h : Heap) (T : Committed) : Heap :=
  (commit h.head (program T.id (T.rereads h.head))).after h

/-- Run transactions again, one after the other. -/
def replay (log : List Committed) (h : Heap) : Heap := log.foldl (replayOne program) h

/-- Replaying commits that cover their reads extends the head by just what they wrote. -/
theorem head_replay {log : List Committed} {h : Heap}
    (built : Snapshot.Built (fun _ => True) h.head) (room : h.head.depth + log.length ≤ 2 ^ 64)
    (follow : Committed.Follow h.head log) (covers : ∀ T ∈ log, T.CoversReads)
    (computes : ∀ T ∈ log, program T.id T.reads = T.writes) :
    (replay program log h).head = h.head.extendAll (log.map Committed.writes) := by
  induction log generalizing h with
  | nil => rfl
  | cons T later ih =>
    obtain ⟨fits, hlater⟩ := follow
    rw [List.length_cons] at room
    have hwrites : program T.id (T.rereads h.head) = T.writes := by
      rw [fits.rereads_eq built (by omega) (covers T List.mem_cons_self)]
      exact computes T List.mem_cons_self
    have hone : replayOne program h T = h.publish T.writes := by
      rw [replayOne, hwrites, Step.after, result_commit, firstConflict_self,
        if_neg (by simpa using fits.nonempty)]
    have hreplay : replay program (T :: later) h = replay program later (h.publish T.writes) := by
      rw [replay, List.foldl_cons, hone, replay]
    rw [hreplay, ih (built.extend fun _ _ => trivial) ?_ hlater
      (fun U hU => covers U (List.mem_cons_of_mem _ hU))
      (fun U hU => computes U (List.mem_cons_of_mem _ hU))]
    · rfl
    · change h.head.depth + 1 + later.length ≤ 2 ^ 64
      omega

end Heap

/-- An action publishes what fits the head, or leaves the head alone. -/
theorem Core.Moves.published_fits {good : Object → Prop} {c c' : Core} {a : Action}
    {log : Option Committed} (moves : Moves good c a log c') (sound : c.Sound good) :
    (log = none ∧ c'.head = c.head) ∨
    ∃ T, log = some T ∧ T.Fits c.head ∧ c'.head = c.head.extend T.writes := by
  cases moves with
  | @published id t t' writes p held free active closed collected rest tSound due nonempty
      unconflicted version handles =>
    have belongs := sound.held id t held
    exact .inr ⟨_, rfl, ⟨belongs.past, fun read hread => belongs.sound.stored_of_read hread,
      unconflicted, nonempty, version⟩, rfl⟩
  | _ => exact .inl ⟨rfl, rfl⟩

namespace Session

/-- The commits of a run fit one after the other, and the head is what they wrote. -/
theorem commits_follow {good : Object → Prop} {actions : List Action} {s : Session}
    (within : ∀ a ∈ actions, a.Within good) (sound : s.core.Sound good) :
    Committed.Follow s.core.head (commits actions s) ∧
    (s.run actions).core.head =
      s.core.head.extendAll ((commits actions s).map Committed.writes) := by
  induction actions generalizing s with
  | nil => exact ⟨trivial, rfl⟩
  | cons a later ih =>
    obtain ⟨hfollow, hhead⟩ := ih (fun b hb => within b (List.mem_cons_of_mem _ hb))
      (sound_step (within a List.mem_cons_self) sound)
    have hrun : s.run (a :: later) = (s.step a).run later := rfl
    rw [hrun, hhead, commits]
    rcases (moves sound a).published_fits sound with ⟨hlog, hstill⟩ | ⟨T, hlog, fits, hextended⟩
    · rw [hstill] at hfollow ⊢
      rw [hlog]
      exact ⟨hfollow, rfl⟩
    · rw [hextended] at hfollow ⊢
      rw [hlog]
      exact ⟨⟨fits, hfollow⟩, rfl⟩

/-- The commits of any run have successive versions. If each of them covers what its transaction
read, and `program` is what the transactions make of their reads, then replaying the transactions
one at a time in this order on a fresh heap gives the same heap at every version. -/
theorem replay_commits (config : Config) (actions : List Action)
    (program : TxnId → List ReadValue → List PendingRecord)
    (room : (commits actions (ofConfig config)).length ≤ 2 ^ 64)
    (covers : ∀ T ∈ commits actions (ofConfig config), T.CoversReads)
    (computes : ∀ T ∈ commits actions (ofConfig config), program T.id T.reads = T.writes) :
    let log := commits actions (ofConfig config)
    let heap := ((ofConfig config).run actions).engine.store.heap
    let replayed := Heap.replay program log (.ofVersion config.initialVersion)
    log.map Committed.version =
      ((List.range log.length).map fun k => config.initialVersion + UInt64.ofNat (k + 1)) ∧
    replayed.head = heap.head ∧ ∀ v, replayed.snapshotAt v = heap.snapshotAt v := by
  intro log heap replayed
  have within : ∀ a ∈ actions, a.Within fun _ => True := by
    intro a _
    cases a with
    | perform id op => cases op <;> simp [Action.Within, Op.Within]
    | _ => trivial
  obtain ⟨hfollow, hhead⟩ := commits_follow within (sound_ofConfig config)
  have hreplayed : replayed.head = heap.head := by
    refine (Heap.head_replay program (h := .ofVersion config.initialVersion)
      (.genesis config.initialVersion) ?_ hfollow covers computes).trans hhead.symm
    exact Nat.le_trans (Nat.le_of_eq (Nat.zero_add _)) room
  refine ⟨hfollow.versions, hreplayed, fun v => ?_⟩
  rw [Heap.snapshotAt, hreplayed, Heap.snapshotAt]

end Session

end

namespace Session

/-- Add to a counter. -/
def addTo (h : Nat) (n : Int64) : Op := .update .counter ⟨h⟩ fun
  | .counter m => .ok (.counter (m + n))
  | o => .ok o

/-- Three transactions work on two counters at once, and two of them on the same one. -/
def crossing : List Action :=
  [.begin, .attach 1 (.counter 10), .attach 1 (.counter 20), .publish 1, .conclude 1,
    .begin, .begin, .begin, .perform 2 (addTo 1 5), .perform 3 (addTo 2 1), .perform 4 (addTo 1 7),
    .publish 3, .publish 2, .publish 4, .conclude 2, .conclude 3]

/-- What these transactions make of what they read. -/
def crossingProgram (id : TxnId) (reads : List ReadValue) : List PendingRecord :=
  if id = 1 then [.ofObject ⟨1⟩ (.counter 10), .ofObject ⟨2⟩ (.counter 20)]
  else reads.filterMap fun
    | (h, _, [.int n]) => some (.ofObject h (.counter (if id = 2 then n + 5 else n + 1)))
    | _ => none

/-- Transaction 2 commits on top of transaction 3, which it had not seen, and transaction 4 loses
against it. Alone and one by one, the others do the same. -/
theorem replay_commits_sample :
    let log := commits crossing (ofConfig {})
    let replayed := Heap.replay crossingProgram log (.ofVersion 0)
    log.map Committed.id = [1, 3, 2] ∧ log.map Committed.version = [1, 2, 3] ∧
    (replayed.head.read ⟨1⟩).map Record.fields = some [.int 15] ∧
    replayed.head = ((ofConfig {}).run crossing).engine.store.heap.head := by
  intro log replayed
  have covers : ∀ T ∈ log, T.CoversReads := by
    simp only [Committed.CoversReads]
    decide +kernel
  have computes : ∀ T ∈ log, crossingProgram T.id T.reads = T.writes := by decide +kernel
  have room : log.length ≤ 2 ^ 64 := by decide +kernel
  obtain ⟨hversions, hhead, -⟩ := replay_commits {} crossing crossingProgram room covers computes
  refine ⟨by decide +kernel, hversions.trans (by decide +kernel), ?_, hhead⟩
  rw [hhead]
  decide +kernel

end Session

end TransactionalHeap
