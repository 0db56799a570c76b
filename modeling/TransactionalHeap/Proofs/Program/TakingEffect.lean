import TransactionalHeap.Object.Stock
import TransactionalHeap.Proofs.Engine.Committing
import TransactionalHeap.Proofs.Engine.SerialReplay
import TransactionalHeap.Proofs.Program.Calling

/-!
# An atomic call takes effect once or not at all

However many turns a call takes, what the heap has gained by its end are commits of others and, if
the call returns, what the transaction of the last turn has changed (`Program.atomically_once`).
-/
namespace TransactionalHeap

section

variable [Transactables]

/-- What a commit that succeeds makes of the heap. -/
theorem Engine.CommitEnds.heap_of_ok {good : Object → Prop} {e e' : Engine} {id : TxnId}
    {t : Transaction} {v : Version} (ends : CommitEnds e id t (.ok v) e')
    (built : Snapshot.Built (PendingRecord.Of good) e.store.heap.head) :
    (t.changed = ∅ → e'.store.heap.head = e.store.heap.head) ∧
    (t.changed ≠ ∅ → Snapshot.FollowsBy t.changed e.store.heap.head e'.store.heap.head) := by
  cases ends with
  | unchanged nothing =>
    exact ⟨fun _ => congrArg Heap.head (Store.heap_released _ _),
      fun something => absurd nothing something⟩
  | @published store something unopposed heap locks liveness =>
    refine ⟨fun nothing => absurd nothing something, fun _ => ?_⟩
    rw [Engine.endWith, Store.heap_released, heap]
    exact built.followsBy t

/-- A commit that succeeds adds one version with the changes to the heap, or nothing where there are
none. -/
theorem Session.heap_of_committed {s : Session} {id : TxnId} {t : Transaction} {v : Version}
    {engine : Engine} (sound : s.core.Sound fun _ => True) (locked : s.LockedByCommits)
    (held : s.engine.held.find? id = some t) (active : t.status = .active)
    (free : s.calls.find? id = none) (committed : Engine.commit id s.engine = .ok v engine) :
    (t.changed = ∅ → engine.store.heap.head = s.engine.store.heap.head) ∧
    (t.changed ≠ ∅ →
      Snapshot.FollowsBy t.changed s.engine.store.heap.head engine.store.heap.head) := by
  by_cases closed : t.depth = 0
  · have hidle := locked.idle (fun p hp => by rw [free] at hp; cases hp)
    obtain ⟨result, e', hresult, ends⟩ := Engine.commit_ends held active
      (List.length_eq_zero_iff.mp closed) (sound.held id t held).sound hidle
    have hrun : (Engine.commit id).result s.engine = (.ok v, engine) := by
      simp only [Step.result, EStateM.run, committed]
    rw [hrun] at hresult
    cases hresult
    exact ends.heap_of_ok sound.built
  · have hfailed : Engine.commit id s.engine = _ :=
      bind_of_error (Engine.beginCommit_of_open held active closed)
    rw [hfailed] at committed
    cases committed

/-- Others have brought a session further: none of the given transactions has published, and the
heap has just what was published. -/
def Session.GrowsWithout (ids : List TxnId) (s s' : Session) : Prop :=
  ∃ actions, s.run actions = s' ∧ (∀ T ∈ commits actions s, T.id ∉ ids) ∧
    s'.engine.store.heap.head =
      s.engine.store.heap.head.extendAll ((commits actions s).map Committed.writes)

namespace Session

variable {ids : List TxnId} {s s' s'' : Session} {actions : List Action}

theorem growsWithout_of_run (sound : s.core.Sound fun _ => True) (run : s.run actions = s')
    (others : ∀ T ∈ commits actions s, T.id ∉ ids) : s.GrowsWithout ids s' := by
  refine ⟨actions, run, others, ?_⟩
  rw [← run]
  exact (commits_follow (fun a _ => a.within_any) sound).2

/-- Growing goes on, also without those who have been let go of in between. -/
theorem GrowsWithout.after {more : List TxnId} (grows : s'.GrowsWithout ids s'')
    (sound : s.core.Sound fun _ => True) (run : s.run actions = s')
    (others : ∀ T ∈ commits actions s, T.id ∉ more)
    (gone : ∀ later, ∀ T ∈ commits later s', T.id ∉ ids → T.id ∉ more) :
    s.GrowsWithout more s'' := by
  obtain ⟨later, hrun, hothers, -⟩ := grows
  have hwhole : s.run (actions ++ later) = s'' := by rw [run_append, run, hrun]
  refine growsWithout_of_run sound hwhole fun T published => ?_
  rw [commits_append, run] at published
  rcases List.mem_append.mp published with hbefore | hlater
  · exact others T hbefore
  · exact gone later T hlater (hothers T hlater)

end Session

namespace Program

variable {ε α : Type} {call : Atomic ε α} {limit : Option UInt32} {calls : ε → SortedMap TxnId InCall}
  {turn next : Turn ε} {w : World ε} {fuel : Nat}

theorem not_publishesInParts {id : TxnId} {log : List Committed}
    (parts : PublishesInParts (Spares id) id log) : ∀ T ∈ log, T.id ≠ id := by
  intro T published hid
  obtain ⟨acts, spares, hmem⟩ := parts T published hid
  exact spares _ hmem rfl

theorem spares_append {id : TxnId} {xs ys : List Action} (hxs : Spares id xs) (hys : Spares id ys) :
    Spares id (xs ++ ys) := fun a hmem =>
  (List.mem_append.mp hmem).elim (hxs a) (hys a)

theorem allows_spares {outer id : TxnId} (other : id ≠ outer) : Allows (Spares outer) id where
  append _ _ := spares_append
  commit := by simp [Spares, Action.Closes, other]
  begin := by simp [Spares, Action.Closes]
  own a closes unpublished := by
    intro b hb
    obtain rfl := List.mem_singleton.mp hb
    cases b <;> simp_all [Action.Closes]

/-- A call inside the run of another one spares the other one's transaction, if its own runs do. -/
theorem atomically_spares {outer : TxnId} (sound : (w.session calls).core.Sound fun _ => True)
    (used : outer < w.engine.store.nextTransaction)
    (fits : ∀ turn ∈ call.turns fuel w,
      turn.Fits call calls fun acts => Spares outer acts ∧ .drop turn.id ∉ acts) :
    (atomically call fuel).Acts (Spares outer) calls w :=
  atomically_acts sound
    (fun _ hid => allows_spares (Nat.ne_of_gt (Nat.lt_of_lt_of_le used hid))) fits

/-- The call takes effect once or not at all. Where it returns, the last of its turns has started on
the newest snapshot and given the result; by its end others had brought the session further, without
any transaction of the call; and its commit added one version with all that it had changed, or none
if that was nothing. Where the call fails, only others have brought the session further. -/
def Atomic.TakesEffectOnce (call : Atomic ε α) (calls : ε → SortedMap TxnId InCall)
    (turns : List (Turn ε)) (s : Session) : EStateM.Result Exit (World ε) α → Prop
  | .ok x after => ∃ last left t, turns.getLast? = some last ∧ last.Regular calls ∧
      call.ran last = .ok x left ∧ left.engine.held.find? last.id = some t ∧
      s.GrowsWithout (turns.map Turn.id) (left.session calls) ∧
      (t.changed = ∅ → after.engine.store.heap.head = left.engine.store.heap.head) ∧
      (t.changed ≠ ∅ →
        Snapshot.FollowsBy t.changed left.engine.store.heap.head after.engine.store.heap.head)
  | .error (.failed _) after => s.GrowsWithout (turns.map Turn.id) (after.session calls)
  | .error .stuck _ => True

/-- What holds of a call from a later session and turn on holds of it from earlier ones on. -/
theorem Atomic.TakesEffectOnce.after {turns all : List (Turn ε)} {s s' : Session}
    {result : EStateM.Result Exit (World ε) α} (once : call.TakesEffectOnce calls turns s' result)
    (same : ∀ last, turns.getLast? = some last → all.getLast? = some last)
    (grows : ∀ s'', s'.GrowsWithout (turns.map Turn.id) s'' → s.GrowsWithout (all.map Turn.id) s'') :
    call.TakesEffectOnce calls all s result := by
  cases result with
  | ok x after =>
    obtain ⟨last, left, t, hlast, hregular, hran, held, hgrows, hrest⟩ := once
    exact ⟨last, left, t, same last hlast, hregular, hran, held, grows _ hgrows, hrest⟩
  | error exit after =>
    cases exit with
    | failed fault => exact grows _ once
    | stuck => trivial

/-- A turn that goes on leaves nothing behind that its call has written. -/
theorem Atomic.GoesOn.growsWithout {s'' : Session} (goesOn : call.GoesOn limit turn next)
    (regular : turn.Regular calls) (hturn : turn.Fits call calls (Spares turn.id))
    (fits : ∀ turn' ∈ call.turnsFrom limit (fuel + 1) next, turn'.Fits call calls (Spares turn'.id))
    (grows : (next.world.session calls).GrowsWithout
      ((call.turnsFrom limit (fuel + 1) next).map Turn.id) s'') :
    (turn.world.session calls).GrowsWithout
      ((turn :: call.turnsFrom limit (fuel + 1) next).map Turn.id) s'' := by
  obtain ⟨actions, -, hrun, hregular, hparts, which⟩ := goesOn.passes hturn regular
  refine grows.after regular.sound hrun ?_ ?_
  · -- what others publish in this turn is not by a transaction of a later turn
    intro T published hmem
    rcases List.mem_cons.mp hmem with hid | hmem
    · exact not_publishesInParts hparts T published hid
    · obtain ⟨turn', hturn', hid⟩ := List.mem_map.mp hmem
      rcases id_of_mem_turnsFrom hregular fits hturn' with hsame | hnew
      · rcases which with hkept | hrenews
        · exact not_publishesInParts hparts T published (hid.symm.trans (hsame.trans hkept))
        · exact Nat.ne_of_lt (hrenews.before T published) (hid.symm.trans hsame)
      · have hused := (Session.commits_present regular.sound published).1
        rw [hrun] at hused
        exact Nat.ne_of_lt (Nat.lt_of_lt_of_le hused hnew) hid.symm
  · -- and what others publish later is not by the transaction of this one
    intro later T published hothers hmem
    rcases List.mem_cons.mp hmem with hid | hmem
    · rcases which with hkept | hrenews
      · refine hothers (List.mem_map.mpr ⟨next, ?_, hkept.trans hid.symm⟩)
        rw [turnsFrom_succ]
        exact List.mem_cons_self
      · have hused := regular.used_run actions
        rw [hrun, ← hid] at hused
        obtain ⟨t, held⟩ := (Session.commits_present hregular.sound published).2 hused
        rw [hid, hrenews.replaces.gone] at held
        cases held
    · exact hothers hmem

/-- The turn that ends the call takes effect once or not at all. -/
theorem Atomic.Ends.once {result : EStateM.Result Exit (World ε) α} (ends : call.Ends limit turn result)
    (regular : turn.Regular calls) (locked : (turn.world.session calls).LockedByCommits)
    (fits : turn.Fits call calls (Spares turn.id)) :
    call.TakesEffectOnce calls [turn] (turn.world.session calls) result := by
  have hkept : ∀ acts, Spares turn.id acts → .drop turn.id ∉ acts := fun acts spares hmem =>
    spares _ hmem rfl
  cases result with
  | error exit after =>
    cases exit with
    | stuck => trivial
    | failed fault =>
      obtain ⟨actions, -, hrun, hsilent⟩ := ends.passes fits hkept regular (.failed fault after)
      refine Session.growsWithout_of_run regular.sound hrun fun T published hmem => ?_
      exact not_publishesInParts (hsilent (by simp)) T published (List.mem_singleton.mp hmem)
  | ok x after =>
    obtain ⟨left, v, engine, hran, hcommit, rfl⟩ := ends.returned_of_ok
    obtain ⟨acts, spares, hrun, hfree⟩ := fits.run_body (.of_ok hran)
    have hsound := Session.sound_run_any regular.sound acts
    have hlocked := Session.lockedByCommits_run_any regular.sound locked acts
    obtain ⟨u, hfresh, starts⟩ := regular.fresh
    obtain ⟨t, held, active⟩ := Session.active_run regular.sound spares hfresh starts.active
    have hgrows : (turn.world.session calls).GrowsWithout [turn.id] (left.session calls) := by
      refine Session.growsWithout_of_run regular.sound hrun fun T published hmem => ?_
      have hpublishes := Session.publish_mem_of_commits regular.sound published
      exact spares _ hpublishes (List.mem_singleton.mp hmem)
    rw [hrun] at hsound hlocked held
    refine ⟨turn, left, t, rfl, regular, hran, held, hgrows, ?_⟩
    have hdrop := (Session.step_drop_rest (s := ⟨engine, calls left.env⟩) hfree).1
    rw [Session.step_drop hfree] at hdrop
    exact hdrop ▸ Session.heap_of_committed hsound hlocked held active hfree hcommit

/-- From any turn on, a call takes effect once or not at all. -/
theorem attempts_once (regular : turn.Regular calls)
    (locked : (turn.world.session calls).LockedByCommits)
    (fits : ∀ turn' ∈ call.turnsFrom limit fuel turn, turn'.Fits call calls (Spares turn'.id)) :
    call.TakesEffectOnce calls (call.turnsFrom limit fuel turn) (turn.world.session calls)
      (attempts call limit fuel turn.done turn.id turn.world) := by
  induction fuel generalizing turn with
  | zero =>
    obtain ⟨left, hstuck⟩ := attempts_zero call limit turn.done turn.id turn.world
    rw [hstuck]
    trivial
  | succ fuel ih =>
    rw [Atomic.turnsFrom_succ] at fits ⊢
    have hturn := fits turn List.mem_cons_self
    rcases attempts_cases call limit fuel turn with ⟨next, hnext, goesOn, hrest⟩ | ⟨hlast, hends⟩
    · rw [hnext] at fits ⊢
      rw [hrest]
      have hfits := fun turn' hmem => fits turn' (List.mem_cons_of_mem _ hmem)
      obtain ⟨actions, -, hrun, hregular, -⟩ := goesOn.passes hturn regular
      have hlocked := Session.lockedByCommits_run_any regular.sound locked actions
      rw [hrun] at hlocked
      cases fuel with
      | zero =>
        obtain ⟨left, hstuck⟩ := attempts_zero call limit next.done next.id next.world
        rw [hstuck]
        trivial
      | succ fuel =>
        refine (ih hregular hlocked hfits).after (fun last hlast => ?_) fun _ grows =>
          goesOn.growsWithout regular hturn hfits grows
        rw [Option.map_some, Option.getD_some, List.getLast?_cons, hlast]
        rfl
    · rw [hlast] at fits ⊢
      exact hends.once regular locked hturn

/-- Whatever has happened before, and whatever others do during the runs of its body and while it
waits, an atomic call takes effect once or not at all. A commit of others may begin in one run and end
in a later one. -/
theorem atomically_once (config : Config) (past : List Action)
    (reached : (Session.ofConfig config).run past = w.session calls) (call : Atomic ε α) (fuel : Nat)
    (fits : ∀ turn ∈ call.turns fuel w, turn.Fits call calls (Spares turn.id)) :
    call.TakesEffectOnce calls (call.turns fuel w) (w.session calls) (atomically call fuel w) := by
  have hsound := Session.sound_reached config past
  have hlocked := Session.lockedByCommits_run_any (Session.sound_ofConfig config)
    (Session.lockedByCommits_ofConfig config) past
  rw [reached] at hsound hlocked
  have honce := attempts_once (Turn.regular_first hsound)
    (Session.lockedByCommits_run_any hsound hlocked [.begin]) fits
  rw [atomically_eq]
  have hbegin : (w.session calls).run [.begin] = (Turn.first w).world.session calls := rfl
  exact honce.after (fun _ hlast => hlast) fun _ grows =>
    grows.after hsound hbegin nofun fun _ _ _ hothers => hothers

end Program

end

namespace Program

/-- A commit of another transaction that has begun, if there is one. -/
abbrev Pending := Option (TxnId × Publication)

def pendingCalls : Pending → SortedMap TxnId InCall
  | none => ∅
  | some (other, p) => (∅ : SortedMap TxnId InCall).insert other (.committing p)

/-- End the commit that has begun. -/
def concludeOther : Program Pending Unit := do
  match (← get).env with
  | none => pure ()
  | some (other, p) =>
    let _ ← attempt (lift (Engine.endCommit other p))
    modify fun w => { w with env := none }

/-- Add to a counter in another transaction, and begin its commit. -/
def beginOther (h : Nat) (n : Int64) : Program Pending Unit := do
  let other ← lift Engine.begin
  let _ ← attempt (lift (Engine.on other (Session.addTo h n).run))
  match ← attempt (lift (Engine.beginCommit other)) with
  | .ok (.published p) => modify fun w => { w with env := some (other, p) }
  | .ok (.settled _) | .error _ => pure ()

/-- Begin the commit of another transaction when the one before has ended. -/
def publishOther (h : Nat) (n : Int64) : Program Pending Unit := do
  concludeOther
  beginOther h n

/-- A call that waits in its first run, meets in the second a commit that has begun, and commits in the
third, where that commit ends. Its value is the number of the run. -/
def contended : Atomic Pending Nat where
  body
    | 0, id => do
      lift (Engine.on id (Session.addTo 1 100).run)
      fail .retry
    | 1, id => do
      lift (Engine.on id (Session.addTo 1 100).run)
      publishOther 1 1
      return 1
    | n + 2, id => do
      concludeOther
      lift (Engine.on id (Session.addTo 1 5).run)
      return n + 2
  wait id := retryWith id do
    publishOther 1 7
    concludeOther

/-- The calls in progress are those of others and the commit that has begun. -/
def Tracks (calls : Pending → SortedMap TxnId InCall) (id : TxnId) : Prop :=
  ∀ other p, other ≠ id → (calls none).find? other = none ∧
    calls (some (other, p)) = (calls none).insert other (.committing p)

/-- The commit that has begun is not that of the transaction. -/
def Apart (id : TxnId) (w : World Pending) : Prop := ∀ other p, w.env = some (other, p) → other ≠ id

section Others

variable {calls : Pending → SortedMap TxnId InCall} {id : TxnId} {w left : World Pending}
  {engine : Engine}

theorem tracks_pendingCalls (id : TxnId) : Tracks pendingCalls id := fun _ _ _ => ⟨rfl, rfl⟩

theorem tracks_withParked (id : TxnId) (p : Parked) : Tracks (withParked pendingCalls id p) id := by
  intro other q hne
  refine ⟨SortedMap.find?_insert_of_ne _ _ hne, SortedMap.ext_find? fun key => ?_⟩
  simp only [withParked, pendingCalls, SortedMap.find?_insert]
  by_cases hid : rank id = rank key
  · have hother : ¬ rank other = rank key := fun hsame => hne (hsame.trans hid.symm)
    rw [if_pos hid, if_neg hother, if_pos hid]
  · rw [if_neg hid, if_neg hid]

theorem apart_of_free (free : (pendingCalls w.env).find? id = none) : Apart id w := by
  rintro other p henv rfl
  rw [henv, pendingCalls, SortedMap.find?_insert_self] at free
  cases free

theorem attempt_lift {ε α : Type} (step : Step Engine α) (w : World ε) :
    attempt (lift step) w = .ok (step.result w.engine).1 { w with engine := step.after w.engine } := by
  cases hstep : step w.engine with
  | ok a engine =>
    rw [attempt_of_ok (lift_of_ok hstep), Step.after_of_ok hstep]
    simp only [Step.result, EStateM.run, hstep]
  | error fault engine =>
    rw [attempt_of_failed (lift_of_error hstep), Step.after_of_error hstep]
    simp only [Step.result, EStateM.run, hstep]

theorem concludeOther_eq (w : World Pending) : concludeOther w = .ok () (match w.env with
    | none => w
    | some (other, p) => ⟨(Engine.endCommit other p).after w.engine, none⟩) := by
  obtain ⟨engine, _ | ⟨other, p⟩⟩ := w
  · rfl
  · exact (bind_of_ok rfl).trans ((bind_of_ok (attempt_lift _ _)).trans rfl)

theorem concludeOther_ends (w : World Pending) : ∃ engine, concludeOther w = .ok () ⟨engine, none⟩ := by
  rw [concludeOther_eq]
  obtain ⟨engine, _ | ⟨other, p⟩⟩ := w <;> exact ⟨_, rfl⟩

theorem concludeOther_acts (tracks : Tracks calls id) (apart : Apart id w) :
    concludeOther.Acts (Spares id) calls w := by
  intro left ends
  rw [concludeOther_eq] at ends
  obtain ⟨engine, _ | ⟨other, p⟩⟩ := w
  · cases ends
    exact ⟨[], nofun, rfl⟩
  · cases ends
    have hne := apart other p rfl
    obtain ⟨hfree, hcalls⟩ := tracks other p hne
    refine ⟨[.conclude other], by simp [Spares, Action.Closes, hne], ?_⟩
    change (World.session ⟨engine, some (other, p)⟩ calls).step (.conclude other) = _
    simp only [Session.step, World.session, hcalls, SortedMap.find?_insert_self,
      SortedMap.erase_insert hfree]

/-- The other transaction, with its change. -/
def added (h : Nat) (n : Int64) (engine : Engine) : Engine :=
  (Engine.on engine.store.nextTransaction (Session.addTo h n).run).after (Engine.begin.after engine)

theorem beginOther_eq (h : Nat) (n : Int64) (engine : Engine) : beginOther h n ⟨engine, none⟩ =
    .ok () (match Engine.beginCommit engine.store.nextTransaction (added h n engine) with
      | .ok (.published p) e => ⟨e, some (engine.store.nextTransaction, p)⟩
      | .ok (.settled _) e | .error _ e => ⟨e, none⟩) := by
  rw [beginOther, bind_of_ok (lift_begin _), bind_of_ok (attempt_lift _ _)]
  change _ = EStateM.Result.ok () (match Engine.beginCommit _ (added h n engine) with
    | .ok (.published p) e => _
    | .ok (.settled _) e | .error _ e => _)
  cases hcommit : Engine.beginCommit engine.store.nextTransaction (added h n engine) with
  | error fault e => rw [bind_of_ok (attempt_of_failed (lift_of_error hcommit))]; rfl
  | ok stage e => cases stage <;> rw [bind_of_ok (attempt_of_ok (lift_of_ok hcommit))] <;> rfl

theorem beginOther_acts (tracks : Tracks calls id)
    (sound : (World.session ⟨engine, none⟩ calls).core.Sound fun _ => True)
    (used : id < engine.store.nextTransaction) (h : Nat) (n : Int64) :
    (beginOther h n).Acts (Spares id) calls ⟨engine, none⟩ := by
  let other := engine.store.nextTransaction
  have hne : other ≠ id := Nat.ne_of_gt used
  have hfree : (calls none).contains other = false :=
    SortedMap.contains_eq_false_iff.mpr (Session.next_free sound)
  have hperformed : ((World.session ⟨engine, none⟩ calls).step .begin).step
      (.perform other (Session.addTo h n)) = ⟨added h n engine, calls none⟩ :=
    Session.unlessCalling_of_free hfree _
  have hpublish := Session.unlessCalling_of_free (s := ⟨added h n engine, calls none⟩) hfree
  intro left ends
  refine ⟨[.begin, .perform other (Session.addTo h n), .publish other],
    by simp [Spares, Action.Closes, hne], ?_⟩
  change (((World.session ⟨engine, none⟩ calls).step .begin).step
      (.perform other (Session.addTo h n))).step (.publish other) = _
  rw [beginOther_eq] at ends
  rw [hperformed]
  simp only [Session.step, hpublish]
  cases hcommit : Engine.beginCommit other (added h n engine) with
  | error fault e =>
    rw [hcommit] at ends
    cases ends
    rfl
  | ok stage e =>
    rw [hcommit] at ends
    cases stage with
    | settled v =>
      cases ends
      rfl
    | published p =>
      cases ends
      exact congrArg (Session.mk e) (tracks other p hne).2.symm

theorem beginOther_apart (used : id < engine.store.nextTransaction) {h : Nat} {n : Int64}
    (ends : EndsIn (beginOther h n ⟨engine, none⟩) left) : Apart id left := by
  rw [beginOther_eq] at ends
  rintro other p henv rfl
  cases hcommit : Engine.beginCommit engine.store.nextTransaction (added h n engine) with
  | error fault e =>
    rw [hcommit] at ends
    cases ends
    cases henv
  | ok stage e =>
    rw [hcommit] at ends
    cases stage <;> cases ends <;> cases henv
    exact Nat.lt_irrefl _ used

theorem publishOther_acts (tracks : Tracks calls id) (apart : Apart id w)
    (sound : (w.session calls).core.Sound fun _ => True)
    (used : id < w.engine.store.nextTransaction) (h : Nat) (n : Int64) :
    (publishOther h n).Acts (Spares id) calls w ∧
      ∀ left, EndsIn (publishOther h n w) left → Apart id left := by
  have hconclude := concludeOther_acts tracks apart
  obtain ⟨engine, hran⟩ := concludeOther_ends w
  obtain ⟨hsound, hgrown⟩ := hconclude.sound sound (.of_ok hran)
  have hused : id < engine.store.nextTransaction := Nat.lt_of_lt_of_le used hgrown
  refine ⟨hconclude.bind (fun _ _ => spares_append) fun u between hran' => ?_, fun left ends => ?_⟩
  · cases hran.symm.trans hran'
    exact beginOther_acts tracks hsound hused h n
  · rw [publishOther, bind_of_ok hran] at ends
    exact beginOther_apart hused ends

/-- What others do between two steps of the call. -/
theorem publishOther_conclude_acts (tracks : Tracks calls id) (apart : Apart id w)
    (sound : (w.session calls).core.Sound fun _ => True)
    (used : id < w.engine.store.nextTransaction) (h : Nat) (n : Int64) :
    Acts (Spares id) calls (do publishOther h n; concludeOther) w := by
  obtain ⟨hacts, hapart⟩ := publishOther_acts tracks apart sound used h n
  refine hacts.bind (fun _ _ => spares_append) fun u left hran => concludeOther_acts tracks ?_
  exact hapart left (.of_ok hran)

end Others

theorem publishOther_returns (h : Nat) (n : Int64) (w : World Pending) :
    ∃ left, publishOther h n w = .ok () left := by
  obtain ⟨engine, hran⟩ := concludeOther_ends w
  exact ⟨_, (bind_of_ok hran).trans (beginOther_eq h n engine)⟩

theorem addTo_acts {ε : Type} {calls : ε → SortedMap TxnId InCall} {id : TxnId} {w : World ε}
    (free : (calls w.env).find? id = none) (h : Nat) (n : Int64) :
    (lift (Engine.on id (Session.addTo h n).run) : Program ε Unit).Acts (Spares id) calls w :=
  acts_perform free _ (by simp [Spares, Action.Closes])

theorem contended_fits (turn : Turn Pending) (regular : turn.Regular pendingCalls) :
    turn.Fits contended pendingCalls (Spares turn.id) := by
  have hadd := addTo_acts regular.free 1 100
  have hbody : ∀ n, (contended.body n turn.id).Acts (Spares turn.id) pendingCalls turn.world
    | 0 => hadd.bind (fun _ _ => spares_append) fun _ _ _ => acts_fail nofun .retry
    | 1 => by
      refine hadd.bind (fun _ _ => spares_append) fun u left hran => ?_
      have hends : EndsIn (lift (Engine.on turn.id (Session.addTo 1 100).run) turn.world) left :=
        .of_ok hran
      obtain ⟨hsound, hgrown⟩ := hadd.sound regular.sound hends
      have hfree := hadd.free regular.sound regular.free hends
      have hused := Nat.lt_of_lt_of_le (regular.used_run []) hgrown
      exact (publishOther_acts (tracks_pendingCalls _) (apart_of_free hfree) hsound hused 1 1).1.bind
        (fun _ _ => spares_append) fun _ _ _ => acts_pure nofun 1
    | n + 2 => by
      have hconclude := concludeOther_acts (tracks_pendingCalls turn.id) (apart_of_free regular.free)
      refine hconclude.bind (fun _ _ => spares_append) fun u left hran => ?_
      have hfree := hconclude.free regular.sound regular.free (.of_ok hran)
      exact (addTo_acts hfree 1 5).bind (fun _ _ => spares_append) fun _ _ _ => acts_pure nofun (n + 2)
  have hacts := hbody turn.done.runs
  refine ⟨hacts, fun left ends => hacts.free regular.sound regular.free ends, fun left hran => ?_⟩
  have hends : EndsIn (contended.ran turn) left := .of_failed hran
  obtain ⟨hsound, -⟩ := hacts.sound regular.sound hends
  have hfree := hacts.free regular.sound regular.free hends
  refine waits_retryWith hsound hfree nofun (fun w fault left => ?_) (fun w left _ hran => ?_)
    fun p engine _ hparked left' ends => ?_
  · obtain ⟨between, hbetween⟩ := publishOther_returns 1 7 w
    obtain ⟨engine, hconclude⟩ := concludeOther_ends between
    rw [bind_of_ok hbetween, hconclude]
    nofun
  · obtain ⟨between, hbetween⟩ := publishOther_returns 1 7 w
    obtain ⟨engine, hconclude⟩ := concludeOther_ends between
    rw [bind_of_ok hbetween, hconclude] at hran
    cases hran
    rfl
  · have hcalling : (World.session { left with engine } (withParked pendingCalls turn.id p)).calls.find?
        turn.id = some (.parked p) := SortedMap.find?_insert_self _ _ _
    obtain ⟨t, held, -⟩ := hparked.calls turn.id _ hcalling
    obtain ⟨actions, spares, hrun⟩ := publishOther_conclude_acts (w := { left with engine })
      (tracks_withParked turn.id p) (apart_of_free hfree) hparked (hparked.held turn.id t held).begun
      1 7 left' ends
    exact ⟨actions, ⟨spares, spares⟩, hrun⟩

/-- A counter of 10, with its transaction gone. -/
def attachedTen : List Action :=
  [.begin, .attach 1 (.counter 10), .publish 1, .conclude 1, .drop 1]

/-- What the last of some turns has changed of an object by its end. -/
def changedLast (h : Handle) (turns : List (Turn Pending)) : Option Object := do
  let last ← turns.getLast?
  match contended.ran last with
  | .ok _ left => (← left.engine.held.find? last.id).changed.find? h
  | .error _ _ => none

/-- The first run waits until transaction 3 has added 7. The second is locked out by transaction 4, which
has added 1 and is inside its commit until the third run has begun. That run commits. The 100 of the
first two is nowhere. -/
theorem atomically_once_sample : ∃ (w after left : World Pending) (t : Transaction),
    (Session.ofConfig {}).run attachedTen = w.session pendingCalls ∧
      atomically contended 4 w = .ok 2 after ∧
      (contended.turns 4 w).map (fun turn => (pendingCalls turn.world.env).keys) = [[], [], [4]] ∧
      (w.session pendingCalls).GrowsWithout [2, 2, 5] (left.session pendingCalls) ∧
      t.changed.find? ⟨1⟩ = some (.counter 23) ∧
      Snapshot.FollowsBy t.changed left.engine.store.heap.head after.engine.store.heap.head ∧
      after.engine.store.heap.head.version = 4 := by
  obtain ⟨w, reached, hids, hcalls, hchanged, hvalue⟩ : ∃ w : World Pending,
      (Session.ofConfig {}).run attachedTen = w.session pendingCalls ∧
      (contended.turns 4 w).map Turn.id = [2, 2, 5] ∧
      (contended.turns 4 w).map (fun turn => (pendingCalls turn.world.env).keys) = [[], [], [4]] ∧
      changedLast ⟨1⟩ (contended.turns 4 w) = some (.counter 23) ∧
      (match atomically contended 4 w with
        | .ok x after => some (x, after.engine.store.heap.head.version)
        | .error _ _ => none) = some (2, 4) :=
    ⟨⟨((Session.ofConfig {}).run attachedTen).engine, none⟩, rfl, by decide +kernel,
      by decide +kernel, by decide +kernel, by decide +kernel⟩
  have hsound := Session.sound_reached {} attachedTen
  rw [reached] at hsound
  have hfits : ∀ turn ∈ contended.turns 4 w, turn.Fits contended pendingCalls (Spares turn.id) :=
    Atomic.fits_turns (Turn.regular_first hsound) contended_fits
  have honce := atomically_once {} attachedTen reached contended 4 hfits
  cases hrun : atomically contended 4 w with
  | error exit after =>
    rw [hrun] at hvalue
    cases hvalue
  | ok x after =>
    rw [hrun] at hvalue honce
    simp only [Option.some.injEq, Prod.mk.injEq] at hvalue
    obtain ⟨rfl, hversion⟩ := hvalue
    obtain ⟨last, left, t, hlast, -, hran, held, hgrows, -, hfollows⟩ := honce
    rw [hids] at hgrows
    have hten : t.changed.find? ⟨1⟩ = some (.counter 23) := by
      simpa [changedLast, hlast, hran, held] using hchanged
    have hsomething : t.changed ≠ ∅ := fun hnothing => by
      rw [hnothing] at hten
      cases hten
    exact ⟨w, after, left, t, reached, hrun, hcalls, hgrows, hten, hfollows hsomething, hversion⟩

end Program

end TransactionalHeap
