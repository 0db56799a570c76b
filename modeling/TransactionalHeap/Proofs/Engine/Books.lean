import Mathlib.Data.List.Induction
import TransactionalHeap.Proofs.Engine.Holdings

/-!
# Books

Statistics, the events that an observer was told, the counters of the heap and its version are kept in
different places. In every session the statistics are the tally of the events, the counters agree with
them, and the versions announced are, with those of the commits between their halves, all that there
are (`Session.Booked`).
-/
namespace TransactionalHeap

/-! ## What an observer can tell -/

/-- An event as it counts in the statistics. -/
def Event.count : Event → Statistics → Statistics
  | .began _ _, n => { n with started := n.started + 1 }
  | .committed _ _ 0, n =>
    { n with committed := n.committed + 1, readOnlyCommits := n.readOnlyCommits + 1 }
  | .committed _ _ (_ + 1), n => { n with committed := n.committed + 1 }
  | .aborted _ _, n => { n with aborted := n.aborted + 1 }
  | .retried _ _, n => { n with retries := n.retries + 1 }
  | .conflicted _ e, n =>
    if e.isConflict then { n with writeConflicts := n.writeConflicts + 1 }
    else { n with lockFailures := n.lockFailures + 1 }

/-- The statistics that whoever is told the events can keep. -/
def Statistics.tally (events : List Event) : Statistics :=
  events.foldl (fun n event => event.count n) {}

theorem Statistics.tally_append (events new : List Event) :
    tally (events ++ new) = new.foldl (fun n event => event.count n) (tally events) :=
  List.foldl_append

inductive EventKind where
  | began
  | committed
  | aborted
  | retried
  | conflicted
  deriving DecidableEq

def Event.kind : Event → EventKind
  | .began _ _ => .began
  | .committed _ _ _ => .committed
  | .aborted _ _ => .aborted
  | .retried _ _ => .retried
  | .conflicted _ _ => .conflicted

/-- How many events of a kind the statistics stand for. -/
def Statistics.countOf (n : Statistics) : EventKind → Nat
  | .began => n.started
  | .committed => n.committed
  | .aborted => n.aborted
  | .retried => n.retries
  | .conflicted => n.writeConflicts + n.lockFailures

theorem Event.countOf_count (event : Event) (n : Statistics) (kind : EventKind) :
    (event.count n).countOf kind = n.countOf kind + if event.kind = kind then 1 else 0 := by
  cases event with
  | committed id v writes => cases writes <;> cases kind <;> rfl
  | conflicted id e =>
    cases hconflict : e.isConflict <;> cases kind <;>
      simp [Event.count, Statistics.countOf, Event.kind, hconflict] <;> omega
  | _ => cases kind <;> rfl

/-- The tally has as many of each kind as there are events. -/
theorem Statistics.countOf_tally (events : List Event) (kind : EventKind) :
    (tally events).countOf kind = events.countP (·.kind = kind) := by
  induction events using List.reverseRecOn with
  | nil => cases kind <;> rfl
  | append_singleton events event ih =>
    rw [tally_append, List.foldl_cons, List.foldl_nil, Event.countOf_count, ih, List.countP_append,
      List.countP_singleton]
    simp

/-- The version that an event announces as new. -/
def Event.announces : Event → Option Version
  | .committed _ v (_ + 1) => some v
  | .committed _ _ 0 | .began _ _ | .aborted _ _ | .retried _ _ | .conflicted _ _ => none

/-- The versions that the events have announced, in order. -/
def announced (events : List Event) : List Version := events.filterMap Event.announces

theorem announced_append (events new : List Event) :
    announced (events ++ new) = announced events ++ announced new := List.filterMap_append

theorem Event.announced_count (event : Event) (n : Statistics) :
    (announced [event]).length + (event.count n).readOnlyCommits + n.committed =
      (event.count n).committed + n.readOnlyCommits := by
  have hsame : 0 + n.readOnlyCommits + n.committed = n.committed + n.readOnlyCommits := by omega
  cases event with
  | committed id v writes =>
    cases writes with
    | zero =>
      change 0 + (n.readOnlyCommits + 1) + n.committed = n.committed + 1 + n.readOnlyCommits
      omega
    | succ writes =>
      change 1 + n.readOnlyCommits + n.committed = n.committed + 1 + n.readOnlyCommits
      omega
  | conflicted id e =>
    cases hconflict : e.isConflict <;>
      simp only [count, hconflict, if_true, Bool.false_eq_true, if_false] <;> exact hsame
  | _ => exact hsame

/-- The commits that published are those whose version was announced. -/
theorem Statistics.length_announced (events : List Event) :
    (announced events).length + (tally events).readOnlyCommits = (tally events).committed := by
  induction events using List.reverseRecOn with
  | nil => rfl
  | append_singleton events event ih =>
    have hevent := event.announced_count (tally events)
    rw [tally_append, announced_append, List.foldl_cons, List.foldl_nil, List.length_append]
    omega

/-- The versions after the first one, as many as given. -/
def versionsAfter (initial : Version) (n : Nat) : List Version :=
  (List.range n).map fun k => initial + UInt64.ofNat (k + 1)

theorem versionsAfter_succ (initial : Version) (n : Nat) :
    versionsAfter initial (n + 1) = versionsAfter initial n ++ [initial + UInt64.ofNat (n + 1)] := by
  simp [versionsAfter, List.range_succ]

/-! ## Commits between their halves -/

/-- The version that is still to be announced. -/
def InCall.due : InCall → Option Version
  | .committing p => some p.version
  | .parked _ | .suspended _ => none

/-- The versions that the calls have still to announce. -/
def dueIn (calls : SortedMap TxnId InCall) : List Version := calls.values.filterMap InCall.due

section DueIn

variable {calls : SortedMap TxnId InCall} {id : TxnId} {call : InCall}

theorem dueIn_insert_perm (calls : SortedMap TxnId InCall) (id : TxnId) (call : InCall) :
    (dueIn (calls.insert id call)).Perm (call.due.toList ++ dueIn (calls.erase id)) := by
  have hperm := ((calls.entries_insert_perm id call).map Prod.snd).filterMap InCall.due
  rw [List.map_cons, List.filterMap_cons] at hperm
  cases hdue : call.due <;> rw [hdue] at hperm <;> exact hperm

theorem dueIn_perm_of_find? (calling : calls.find? id = some call) :
    (dueIn calls).Perm (call.due.toList ++ dueIn (calls.erase id)) := by
  have hinsert := dueIn_insert_perm calls id call
  rwa [SortedMap.insert_of_find? calling] at hinsert

/-- Where a call starts or goes on that is not a commit, the same versions are due. -/
theorem dueIn_insert_of_none (now : call.due = none)
    (before : ∀ call', calls.find? id = some call' → call'.due = none) :
    (dueIn (calls.insert id call)).Perm (dueIn calls) := by
  have hinsert := dueIn_insert_perm calls id call
  rw [now] at hinsert
  cases hcall : calls.find? id with
  | none => rwa [SortedMap.erase_of_find? hcall] at hinsert
  | some call' =>
    have hcalls := dueIn_perm_of_find? hcall
    rw [before call' hcall] at hcalls
    exact hinsert.trans hcalls.symm

end DueIn

/-! ## The counters -/

variable [Transactables]

namespace Store

variable (s : Store)

@[simp] theorem statistics_released (live : Option Version) :
    (s.released live).statistics = s.statistics := by
  cases live <;> rfl

@[simp] theorem events_released (live : Option Version) : (s.released live).events = s.events := by
  cases live <;> rfl

end Store

namespace Session

variable {initial : Version} {s s' : Session}

/-- Statistics, events, counters and version agree. -/
structure Booked (initial : Version) (s : Session) : Prop where
  told : s.engine.store.statistics = .tally s.engine.store.events
  conflicts : s.engine.store.statistics.writeConflicts = s.engine.store.heap.writeConflicts
  version : s.engine.store.heap.version = initial + UInt64.ofNat s.engine.store.heap.commits
  versions : (announced s.engine.store.events ++ dueIn s.calls).Perm
    (versionsAfter initial s.engine.store.heap.commits)
  written : ∀ id p, s.calls.find? id = some (.committing p) → p.handles ≠ []

namespace Booked

/-- Events that are told and counted, and versions that are announced when they are due, while the
heap stays. -/
theorem after (booked : s.Booked initial) (new : List Event)
    (events : s'.engine.store.events = s.engine.store.events ++ new)
    (statistics : s'.engine.store.statistics =
      new.foldl (fun n event => event.count n) s.engine.store.statistics)
    (conflicts : s'.engine.store.statistics.writeConflicts + s.engine.store.heap.writeConflicts =
      s.engine.store.statistics.writeConflicts + s'.engine.store.heap.writeConflicts)
    (head : s'.engine.store.heap.head = s.engine.store.heap.head)
    (commits : s'.engine.store.heap.commits = s.engine.store.heap.commits)
    (versions : (announced new ++ dueIn s'.calls).Perm (dueIn s.calls))
    (written : ∀ id p, s'.calls.find? id = some (.committing p) →
      s.calls.find? id = some (.committing p)) : s'.Booked initial where
  told := by rw [statistics, events, Statistics.tally_append, booked.told]
  conflicts := by
    have hbefore := booked.conflicts
    omega
  version := by
    rw [commits, ← booked.version]
    exact congrArg Snapshot.version head
  versions := by
    rw [events, commits, announced_append, List.append_assoc]
    exact (versions.append_left _).trans booked.versions
  written id p hp := booked.written id p (written id p hp)

/-- The same where nothing is told and no call changes. -/
theorem unchanged (booked : s.Booked initial)
    (events : s'.engine.store.events = s.engine.store.events)
    (statistics : s'.engine.store.statistics = s.engine.store.statistics)
    (heap : s'.engine.store.heap = s.engine.store.heap) (calls : s'.calls = s.calls) :
    s'.Booked initial := by
  refine booked.after [] ?_ statistics ?_ (by rw [heap]) (by rw [heap]) ?_ fun id p hp => ?_
  · rw [events, List.append_nil]
  · rw [statistics, heap]
  · rw [calls]
    exact .refl _
  · rwa [calls] at hp

/-- The same where one event is told that announces nothing and is no conflict. -/
theorem tell (booked : s.Booked initial) {event : Event}
    (events : s'.engine.store.events = s.engine.store.events ++ [event])
    (statistics : s'.engine.store.statistics = event.count s.engine.store.statistics)
    (quiet : event.announces = none) (peaceful : event.kind ≠ .conflicted)
    (heap : s'.engine.store.heap = s.engine.store.heap)
    (due : (dueIn s'.calls).Perm (dueIn s.calls))
    (written : ∀ id p, s'.calls.find? id = some (.committing p) →
      s.calls.find? id = some (.committing p)) : s'.Booked initial := by
  refine booked.after [event] events statistics ?_ (by rw [heap]) (by rw [heap]) ?_ written
  · rw [statistics, heap]
    cases event with
    | committed id v writes => cases writes <;> rfl
    | conflicted id e => exact absurd rfl peaceful
    | _ => rfl
  · have hquiet : announced [event] = [] := by simp [announced, quiet]
    rwa [hquiet]

/-- A transaction that has lost over a lock or a conflict, and is aborted. -/
theorem lose (booked : s.Booked initial) {id : TxnId} {fault : Error} {store : Store}
    {marked : Transaction} {status : TransactionStatus}
    (events : store.events = s.engine.store.events ++ [.conflicted id fault])
    (statistics : store.statistics = (Event.conflicted id fault).count s.engine.store.statistics)
    (conflicts : store.heap.writeConflicts =
      s.engine.store.heap.writeConflicts + if fault.isConflict then 1 else 0)
    (head : store.heap.head = s.engine.store.heap.head)
    (commits : store.heap.commits = s.engine.store.heap.commits) :
    Booked initial { s with
      engine := s.engine.endWith id (store.aborted id (.failed fault)) marked status } := by
  have hstatistics : (store.aborted id (.failed fault)).statistics =
      [Event.conflicted id fault, .aborted id (.failed fault)].foldl (fun n event => event.count n)
        s.engine.store.statistics := by
    rw [List.foldl_cons, ← statistics]
    rfl
  have hheap : ∀ live, ((store.aborted id (.failed fault)).released live).heap = store.heap := fun _ =>
    (Store.heap_released _ _).trans (Store.heap_aborted _ _ _)
  refine booked.after [.conflicted id fault, .aborted id (.failed fault)] ?_
    ((Store.statistics_released _ _).trans hstatistics) ?_ ?_ ?_ (.refl _) fun _ _ hp => hp
  · refine (Store.events_released _ _).trans ?_
    change store.events ++ [_] = _
    rw [events, List.append_assoc]
    rfl
  · have hcounted : (store.aborted id (.failed fault)).statistics.writeConflicts =
        s.engine.store.statistics.writeConflicts + if fault.isConflict then 1 else 0 := by
      rw [hstatistics]
      simp only [List.foldl_cons, List.foldl_nil, Event.count]
      split <;> rfl
    simp only [Engine.endWith, Store.statistics_released, hcounted, hheap, conflicts]
    omega
  · simp only [Engine.endWith, hheap, head]
  · simp only [Engine.endWith, hheap, commits]

end Booked

/-- One action keeps the books. -/
theorem Effect.booked {a : Action} {log : Option Committed} (effect : Effect s a log s')
    (booked : s.Booked initial) : s'.Booked initial := by
  cases effect with
  | nothing mayRefuse => exact booked
  | usedHandle absent | performed held free | attached held free | unparked held active free reads lost =>
    exact booked.unchanged rfl rfl rfl rfl
  | dropped held free =>
    exact booked.unchanged (Store.events_released _ _) (Store.statistics_released _ _)
      (Store.heap_released _ _) rfl
  | began which =>
    exact booked.tell rfl rfl rfl (by simp [Event.kind]) rfl (.refl _) fun _ _ hp => hp
  | @aborted id t held free active =>
    exact booked.tell (Store.events_released _ _) (Store.statistics_released _ _) rfl
      (by simp [Event.kind]) (Store.heap_released _ _) (.refl _) fun _ _ hp => hp
  | unchanged ready nothing =>
    exact booked.tell (Store.events_released _ _) (Store.statistics_released _ _) rfl
      (by simp [Event.kind]) (Store.heap_released _ _) (.refl _) fun _ _ hp => hp
  | @lockedOut id t fault locks ready something lost =>
    obtain ⟨h, holder, rfl⟩ := LockTable.acquireFrom_fails lost
    exact booked.lose rfl rfl rfl rfl rfl
  | @conflicted id t fault guard locks heap ready something locked lost counted =>
    obtain ⟨_, w, _, seen, -, -, -, -, rfl⟩ := Heap.firstConflict_eq_some lost
    subst counted
    exact booked.lose rfl rfl rfl rfl rfl
  | @published id t guard locks p ready something locked unconflicted which =>
    have hnext : p.version = initial + UInt64.ofNat (s.engine.store.heap.commits + 1) := by
      rw [which, UInt64.ofNat_add, ← UInt64.add_assoc]
      exact congrArg (· + 1) booked.version
    refine ⟨booked.told, booked.conflicts, ?_, ?_, fun other q hq => ?_⟩
    · rw [which] at hnext
      exact hnext
    · have hdue := dueIn_insert_perm s.calls id (.committing p)
      rw [SortedMap.erase_of_find? ready.free] at hdue
      refine (hdue.append_left _).trans (List.perm_middle.trans ?_)
      refine (List.perm_append_singleton _ _).symm.trans ?_
      change (_ ++ [p.version]).Perm (versionsAfter initial (s.engine.store.heap.commits + 1))
      rw [versionsAfter_succ, hnext]
      exact booked.versions.append_right _
    · rcases SortedMap.find?_of_insert hq with ⟨-, hcall⟩ | ⟨-, hq⟩
      · cases hcall
        rw [which]
        exact fun hnil => something (Transaction.pendingWrites_eq_nil_iff.mp (List.map_eq_nil_iff.mp hnil))
      · exact booked.written other q hq
  | @concluded id t p held calling =>
    obtain ⟨h, later, hhandles⟩ := List.exists_cons_of_ne_nil (booked.written id p calling)
    have hlength : p.handles.length = later.length + 1 := by rw [hhandles, List.length_cons]
    have hevents : (s.engine.store.conclude id p).events =
        s.engine.store.events ++ [.committed id p.version (later.length + 1)] := by
      rw [← hlength]
      rfl
    refine booked.after [.committed id p.version (later.length + 1)]
      ((Store.events_released _ _).trans hevents) (Store.statistics_released _ _) ?_ ?_ ?_
      (dueIn_perm_of_find? calling).symm fun other q hq => (SortedMap.find?_of_erase hq).2
    · simp only [Engine.endWith, Store.statistics_released, Store.heap_released]
      rfl
    · exact congrArg Heap.head (Store.heap_released _ _)
    · exact congrArg Heap.commits (Store.heap_released _ _)
  | @parked id t filed listeners p held active free reads registered which =>
    have hnone : ∀ call, s.calls.find? id = some call → call.due = none := fun call hcall => by
      rw [free] at hcall
      cases hcall
    refine booked.tell rfl rfl rfl (by simp [Event.kind]) rfl (dueIn_insert_of_none rfl hnone) ?_
    exact fun other q => (committing_insert (by simp [free]) (by simp) other q).mp
  | @suspended id t p held calling =>
    have hnone : ∀ call, s.calls.find? id = some call → call.due = none := fun call hcall => by
      rw [calling] at hcall
      cases hcall
      rfl
    refine booked.after [] ?_ (Store.statistics_released _ _) ?_ ?_ ?_ (dueIn_insert_of_none rfl hnone) ?_
    · rw [List.append_nil]
      exact Store.events_released _ _
    · simp
    · simp
    · simp
    · exact fun other q => (committing_insert (by simp [calling]) (by simp) other q).mp
  | @woken id t p held calling =>
    have hdue := (dueIn_perm_of_find? calling).symm
    refine booked.tell rfl rfl rfl (by simp [Event.kind]) rfl hdue ?_
    exact fun other q => (committing_erase (by simp [calling]) other q).mp

theorem booked_run {actions : List Action} (sound : s.core.Sound fun _ => True)
    (booked : s.Booked initial) : (s.run actions).Booked initial :=
  kept_run (fun _ _ _ _ effect _ _ => effect.booked) (fun a _ => a.within_any) sound booked

theorem booked_ofConfig (config : Config) : (ofConfig config).Booked config.initialVersion where
  told := rfl
  conflicts := rfl
  version := (UInt64.add_zero _).symm
  versions := .refl _
  written id p hp := by cases hp

end Session

end TransactionalHeap
