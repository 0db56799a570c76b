import TransactionalHeap.Object.Stock
import TransactionalHeap.Proofs.Engine.SerialReplay
import TransactionalHeap.Proofs.Engine.Settling
import TransactionalHeap.Proofs.Program.Calling

/-!
# The books of whole runs

Where nobody gets between the halves of a commit, the versions are announced in their order. With that
the books of a run agree once all calls are over (`Session.books_agree`).
-/
namespace TransactionalHeap

section

variable [Transactables]

/-- Runs in which the halves of every commit follow each other. -/
inductive Undivided : List Action → Prop
  | nil : Undivided []
  | act {a : Action} {later : List Action} (whole : ∀ id, a ≠ .publish id) (rest : Undivided later) :
      Undivided (a :: later)
  | commit {id : TxnId} {later : List Action} (rest : Undivided later) :
      Undivided (.publish id :: .conclude id :: later)

theorem Undivided.append {xs ys : List Action} (hxs : Undivided xs) (hys : Undivided ys) :
    Undivided (xs ++ ys) := by
  induction hxs with
  | nil => exact hys
  | act whole rest ih => exact .act whole ih
  | commit rest ih => exact .commit ih

theorem Program.allows_undivided (id : TxnId) : Allows Undivided id where
  append _ _ := .append
  commit := .commit .nil
  begin := .act (by simp) .nil
  own a closes unpublished := by
    refine .act (fun other hsame => ?_) .nil
    subst hsame
    exact unpublished (congrArg Action.publish closes)

namespace Session

variable {initial : Version} {s s' : Session} {id : TxnId}

/-- No commit is between its halves, and the versions were announced in order. -/
structure InOrder (initial : Version) (s : Session) : Prop where
  idle : ∀ id p, s.calls.find? id ≠ some (.committing p)
  announced_eq : announced s.engine.store.events = versionsAfter initial s.engine.store.heap.commits

namespace InOrder

/-- What is told without announcing anything keeps the order. -/
theorem after (inOrder : s.InOrder initial) (new : List Event)
    (events : s'.engine.store.events = s.engine.store.events ++ new) (quiet : announced new = [])
    (commits : s'.engine.store.heap.commits = s.engine.store.heap.commits)
    (calls : ∀ id p, s'.calls.find? id = some (.committing p) → s.calls.find? id = some (.committing p)) :
    s'.InOrder initial where
  idle id p hp := inOrder.idle id p (calls id p hp)
  announced_eq := by rw [events, announced_append, quiet, List.append_nil, inOrder.announced_eq, commits]

/-- A transaction that ends without publishing. -/
theorem endWith (inOrder : s.InOrder initial) (new : List Event) {store : Store} {marked : Transaction}
    {status : TransactionStatus} (events : store.events = s.engine.store.events ++ new)
    (quiet : announced new = []) (commits : store.heap.commits = s.engine.store.heap.commits) :
    InOrder initial { s with engine := s.engine.endWith id store marked status } :=
  inOrder.after new ((Store.events_released _ _).trans events) quiet
    ((congrArg Heap.commits (Store.heap_released _ _)).trans commits) fun _ _ hp => hp

end InOrder

/-- An action that publishes nothing, outside of commits, keeps the order. -/
theorem Effect.inOrder {a : Action} (effect : Effect s a none s') (inOrder : s.InOrder initial) :
    s'.InOrder initial := by
  cases effect with
  | nothing mayRefuse => exact inOrder
  | usedHandle absent | performed held free | attached held free | unparked held active free reads lost =>
    exact inOrder.after [] (List.append_nil _).symm rfl rfl fun _ _ hp => hp
  | began which => exact inOrder.after [_] rfl rfl rfl fun _ _ hp => hp
  | dropped held free =>
    refine inOrder.after [] ?_ rfl (congrArg Heap.commits (Store.heap_released _ _)) fun _ _ hp => hp
    rw [List.append_nil]
    exact Store.events_released _ _
  | aborted held free active => exact inOrder.endWith [_] rfl rfl rfl
  | unchanged ready nothing => exact inOrder.endWith [_] rfl rfl rfl
  | @lockedOut id t fault locks ready something lost =>
    exact inOrder.endWith [.conflicted id fault, .aborted id (.failed fault)] (List.append_assoc _ _ _)
      rfl rfl
  | @conflicted id t fault guard locks heap ready something locked lost counted =>
    subst counted
    exact inOrder.endWith [.conflicted id fault, .aborted id (.failed fault)] (List.append_assoc _ _ _)
      rfl rfl
  | @concluded id t p held calling => exact absurd calling (inOrder.idle id p)
  | parked held active free reads registered which =>
    exact inOrder.after [_] rfl rfl rfl fun other q =>
      (committing_insert (by simp [free]) (by simp) other q).mp
  | @suspended id t p held calling =>
    refine inOrder.after [] ?_ rfl (congrArg Heap.commits (Store.heap_released _ _)) fun other q =>
      (committing_insert (by simp [calling]) (by simp) other q).mp
    rw [List.append_nil]
    exact Store.events_released _ _
  | @woken id t p held calling =>
    exact inOrder.after [_] rfl rfl rfl fun other q =>
      (committing_erase (by simp [calling]) other q).mp

/-- A whole commit announces the next version. -/
theorem Effect.inOrder_commit {T : Committed} {s'' : Session}
    (first : Effect s (.publish id) (some T) s') (second : Effect s' (.conclude id) none s'')
    (booked : s.Booked initial) (inOrder : s.InOrder initial) : s''.InOrder initial := by
  have hwritten := (first.booked booked).written
  cases first with
  | @published _ t guard locks p ready something locked unconflicted which =>
    have hcalling := SortedMap.find?_insert_self s.calls id (.committing p)
    cases second with
    | nothing mayRefuse => exact absurd hcalling (mayRefuse p)
    | began which => rcases which with ⟨h, -⟩ | ⟨v, h, -⟩ <;> cases h
    | @concluded _ t' p' held calling =>
      obtain rfl : p = p' := by
        rw [hcalling] at calling
        cases calling
        rfl
      obtain ⟨h, later, hhandles⟩ := List.exists_cons_of_ne_nil (hwritten id p hcalling)
      refine ⟨fun other q hq => ?_, ?_⟩
      · rw [SortedMap.erase_insert ready.free] at hq
        exact inOrder.idle other q hq
      · have hversion : p.version = initial + UInt64.ofNat (s.engine.store.heap.commits + 1) := by
          rw [which, UInt64.ofNat_add, ← UInt64.add_assoc]
          exact congrArg (· + 1) booked.version
        have hnew : announced [.committed id p.version p.handles.length] = [p.version] := by
          rw [hhandles]
          rfl
        simp only [Engine.endWith, Store.events_released, Store.heap_released]
        change announced (s.engine.store.events ++ [.committed id p.version p.handles.length]) =
          versionsAfter initial (s.engine.store.heap.commits + 1)
        rw [announced_append, hnew, inOrder.announced_eq, versionsAfter_succ, hversion]

theorem inOrder_run {actions : List Action} (whole : Undivided actions)
    (sound : s.core.Sound fun _ => True) (booked : s.Booked initial) (inOrder : s.InOrder initial) :
    (s.run actions).InOrder initial := by
  induction whole generalizing s with
  | nil => exact inOrder
  | @act a later unpublished rest ih =>
    have hnone : s.published? a = none := by
      cases a with
      | publish id => exact absurd rfl (unpublished id)
      | _ => rfl
    have heffect := effect sound a
    rw [hnone] at heffect
    exact ih (sound_step a.within_any sound) (heffect.booked booked) (heffect.inOrder inOrder)
  | @commit id later rest ih =>
    have hfirst := effect sound (.publish id)
    have hsound := sound_step (a := .publish id) trivial sound
    have hsecond : Effect (s.step (.publish id)) (.conclude id) none _ := effect hsound (.conclude id)
    refine ih (sound_step (a := .conclude id) trivial hsound) (hsecond.booked (hfirst.booked booked)) ?_
    cases hlog : s.published? (.publish id) with
    | none =>
      rw [hlog] at hfirst
      exact hsecond.inOrder (hfirst.inOrder inOrder)
    | some T =>
      rw [hlog] at hfirst
      exact hfirst.inOrder_commit hsecond booked inOrder

theorem inOrder_ofConfig (config : Config) : (ofConfig config).InOrder config.initialVersion where
  idle id p hp := by cases hp
  announced_eq := rfl

section Settled

variable {dropped : List TxnId}

/-- When all calls are over, every version has been announced. -/
theorem Booked.announced_perm (booked : s.Booked initial) (settled : s.calls = ∅) :
    (announced s.engine.store.events).Perm (versionsAfter initial s.engine.store.heap.commits) := by
  have hversions := booked.versions
  have hnone : dueIn s.calls = [] := by rw [settled]; rfl
  rwa [hnone, List.append_nil] at hversions

/-- Then the commits that published are those of the heap. -/
theorem Booked.committed_eq (booked : s.Booked initial) (settled : s.calls = ∅) :
    s.engine.store.statistics.committed =
      s.engine.store.heap.commits + s.engine.store.statistics.readOnlyCommits := by
  have hlength := (booked.announced_perm settled).length_eq
  have hcommitted := Statistics.length_announced s.engine.store.events
  rw [← booked.told, hlength, versionsAfter, List.length_map, List.length_range] at hcommitted
  exact hcommitted.symm

/-- Then the running transactions are the active ones. -/
theorem running_of_settled (settled : s.calls = ∅) :
    running (fun _ => true) s = s.engine.held.values.countP Transaction.isActive := by
  have hnone : ∀ id, s.calls.find? id = none := fun id => by rw [settled]; rfl
  rw [running, SortedMap.values, List.countP_map]
  refine List.countP_congr fun entry _ => ?_
  obtain ⟨id, t⟩ := entry
  simp [isRunning, hnone id]

/-- Then whatever was started is settled, active or forgotten. -/
theorem Settles.started_eq (settles : s.Settles dropped) (booked : s.Booked initial)
    (settled : s.calls = ∅) :
    let n := s.engine.store.statistics
    n.started = n.committed + n.aborted + n.retries +
      s.engine.held.values.countP Transaction.isActive + dropped.length := by
  intro n
  have hsettles := settles fun _ => true
  rw [running_of_settled settled, List.countP_true, ← unfinished_tally, ← booked.told] at hsettles
  change (n.started : Int) - n.committed - n.aborted - n.retries = _ at hsettles
  omega

end Settled

/-- When all calls are over, statistics, heap, version and events tell the same story, whatever
transactions have done. Atomic calls are among what they have done: such a call is a run as well. -/
theorem books_agree (config : Config) (actions : List Action)
    (settled : ((ofConfig config).run actions).calls = ∅) :
    let s := (ofConfig config).run actions
    let n := s.engine.store.statistics
    let heap := s.engine.store.heap
    let events := s.engine.store.events
    n.readOnlyCommits ≤ n.committed ∧ n.updateCommits = heap.commits ∧
    heap.version - config.initialVersion = UInt64.ofNat heap.commits ∧
    n.writeConflicts = heap.writeConflicts ∧
    n.started = n.committed + n.aborted + n.retries +
      s.engine.held.values.countP Transaction.isActive + (forgotten actions (ofConfig config)).length ∧
    n = .tally events ∧ (∀ kind, events.countP (·.kind = kind) = n.countOf kind) ∧
    (announced events).Perm (versionsAfter config.initialVersion heap.commits) ∧
    (Undivided actions → announced events = versionsAfter config.initialVersion heap.commits) ∧
    ∀ {ε α : Type} (calls : ε → SortedMap TxnId InCall) (call : Program.Atomic ε α) (fuel : Nat)
      (w left : World ε), w.session calls = s →
      (∀ turn ∈ call.turns fuel w,
        turn.Fits call calls fun acts => Undivided acts ∧ .drop turn.id ∉ acts) →
      Program.EndsIn (Program.atomically call fuel w) left →
      ∃ more, Undivided more ∧ (ofConfig config).run (actions ++ more) = left.session calls := by
  intro s n heap events
  have hsound : s.core.Sound fun _ => True := sound_reached config actions
  have hbooked : s.Booked config.initialVersion :=
    booked_run (sound_ofConfig config) (booked_ofConfig config)
  have hsettles : s.Settles (forgotten actions (ofConfig config)) :=
    settles_run (sound_ofConfig config) (settles_ofConfig config)
  have hcommitted := hbooked.committed_eq settled
  refine ⟨?_, ?_, ?_, hbooked.conflicts, hsettles.started_eq hbooked settled, hbooked.told, ?_,
    hbooked.announced_perm settled, fun whole => ?_, fun calls call fuel w left here fits ends => ?_⟩
  · exact hcommitted ▸ Nat.le_add_left _ _
  · exact Nat.sub_eq_of_eq_add hcommitted
  · have hversion : heap.version = config.initialVersion + UInt64.ofNat heap.commits := hbooked.version
    change heap.version - config.initialVersion = _
    rw [hversion, UInt64.add_comm, UInt64.add_sub_cancel]
  · intro kind
    rw [← Statistics.countOf_tally]
    exact congrArg (Statistics.countOf · kind) hbooked.told.symm
  · exact (inOrder_run whole (sound_ofConfig config) (booked_ofConfig config)
      (inOrder_ofConfig config)).announced_eq
  · exact Program.atomically_reaches here Program.allows_undivided fits ends

end Session

end

namespace Session

/-- A conflict between 2 and 3, a commit that changes nothing, a transaction that is forgotten, one that
is aborted, and one that waits for the commit of another. -/
def eventful : List Action :=
  [.begin, .attach 1 (.counter 10), .publish 1, .conclude 1,
    .begin, .begin, .perform 2 (addTo 1 5), .perform 3 (addTo 1 7),
    .publish 2, .conclude 2, .publish 3, .conclude 3,
    .begin, .publish 4, .conclude 4, .begin, .drop 5, .begin, .abort 6,
    .begin, .perform 7 (.read .counter ⟨1⟩), .park 7,
    .begin, .perform 8 (addTo 1 1), .publish 8, .conclude 8, .suspend 7, .wake 7]

theorem eventful_undivided : Undivided eventful :=
  .act nofun (.act nofun (.commit (.act nofun (.act nofun (.act nofun (.act nofun (.commit (.commit
    (.act nofun (.commit (.act nofun (.act nofun (.act nofun (.act nofun (.act nofun (.act nofun
      (.act nofun (.act nofun (.act nofun (.commit (.act nofun (.act nofun .nil))))))))))))))))))))))

/-- Of nine starts, three have published, one had nothing to write, two were aborted, and one has gone
into a retry. Transaction 7 is active, and transaction 5 was forgotten. -/
theorem books_agree_eventful :
    let s := (ofConfig {}).run eventful
    let heap := s.engine.store.heap
    s.engine.store.statistics.started = 4 + 2 + 1 + 1 + 1 ∧
    s.engine.store.statistics.updateCommits = 3 ∧
    heap.version - 0 = 3 ∧ heap.commits = 3 ∧ heap.writeConflicts = 1 ∧
    announced s.engine.store.events = [1, 2, 3] := by
  have settled : ((ofConfig {}).run eventful).calls = ∅ :=
    SortedMap.eq_empty_of_isEmpty (by decide +kernel)
  have hcommits : ((ofConfig {}).run eventful).engine.store.heap.commits = 3 := by decide +kernel
  have hcounts :
      let s := (ofConfig {}).run eventful
      let n := s.engine.store.statistics
      (n.committed, n.aborted, n.retries, n.writeConflicts,
        s.engine.held.values.countP Transaction.isActive, forgotten eventful (ofConfig {})) =
        (4, 2, 1, 1, 1, [5]) := by decide +kernel
  have hbooks := books_agree {} eventful settled
  generalize (ofConfig {}).run eventful = s at hcommits hcounts hbooks ⊢
  simp only [Prod.mk.injEq] at hcounts
  obtain ⟨hcommitted, haborted, hretries, hlost, hactive, hforgotten⟩ := hcounts
  obtain ⟨-, hupdates, hversion, hconflicts, hstarted, -, -, -, hannounced, -⟩ := hbooks
  have hordered := hannounced eventful_undivided
  rw [hcommits] at hupdates hversion hordered
  refine ⟨?_, hupdates, hversion, hcommits, hconflicts.symm.trans hlost, hordered⟩
  rw [hstarted, hcommitted, haborted, hretries, hactive, hforgotten]
  rfl

end Session

end TransactionalHeap
