import TransactionalHeap.Proofs.Program.Acting

/-!
# What an atomic call does

A turn of an atomic call is a run of actions: those of its body and of others while it waits, which
are its parts, and a few of its own (`Program.Passage`). Between two turns the call stands with a
transaction that has everything still before it, on the newest snapshot (`Program.Turn.Regular`), while
others may be inside of their calls; and only a turn that returns publishes outside of its parts. So a
whole call is a run of actions as well (`Program.atomically_acts`).
-/
namespace TransactionalHeap

variable [Transactables]

/-- A transaction that has everything still before it, on the given snapshot. -/
structure Transaction.StartsOn (t : Transaction) (snapshot : Snapshot) : Prop where
  active : t.status = .active
  snapshot_eq : t.snapshot = snapshot
  entries : t.entries = ∅
  frames : t.frames = []

theorem Engine.held_drop (id : TxnId) (e : Engine) : ((drop id).after e).held.find? id = none := by
  have hdrop := drop_eq id e
  split at hdrop
  · next absent => rwa [Step.after_of_ok hdrop]
  · rw [Step.after_of_ok hdrop]
    exact SortedMap.find?_erase_self _ _

namespace Session

variable {s : Session} {id : TxnId}

theorem step_begin (s : Session) :
    s.step .begin = s.onEngine (Engine.start s.engine.store.heap.head) := by
  simp only [step, onEngine, Step.after, Step.result, EStateM.run, Engine.begin_eq]

theorem step_begin_starts (s : Session) :
    ∃ t, (s.step .begin).engine.held.find? s.engine.store.nextTransaction = some t ∧
      t.StartsOn (s.step .begin).engine.store.heap.head := by
  rw [step_begin]
  exact ⟨.begun _ _, SortedMap.find?_insert_self _ _ _, rfl, rfl, rfl, rfl⟩

theorem step_drop (free : s.calls.find? id = none) :
    s.step (.drop id) = s.onEngine (Engine.drop id) :=
  unlessCalling_of_free (SortedMap.contains_eq_false_iff.mpr free) _

theorem step_abort (free : s.calls.find? id = none) :
    s.step (.abort id) = s.onEngine (Engine.abort id) :=
  unlessCalling_of_free (SortedMap.contains_eq_false_iff.mpr free) _

/-- Dropping one transaction leaves the others and the heap. -/
theorem step_drop_rest (free : s.calls.find? id = none) :
    (s.step (.drop id)).engine.store.heap = s.engine.store.heap ∧
    ∀ other, other ≠ id → (s.step (.drop id)).engine.held.find? other = s.engine.held.find? other := by
  rw [step_drop free]
  have hdrop := Engine.drop_eq id s.engine
  split at hdrop <;> simp only [onEngine, Step.after_of_ok hdrop]
  · exact ⟨trivial, fun _ _ => trivial⟩
  · exact ⟨Store.heap_released _ _, fun other hne => SortedMap.find?_erase_of_ne _ hne⟩

theorem step_drop_absent (free : s.calls.find? id = none) :
    (s.step (.drop id)).engine.held.find? id = none := by
  rw [step_drop free]
  exact Engine.held_drop id s.engine

theorem step_park_of_ok {p : Parked} {engine : Engine} (free : s.calls.find? id = none)
    (parks : Engine.park id s.engine = .ok p engine) :
    s.step (.park id) = { engine, calls := s.calls.insert id (.parked p) } := by
  simp only [step, unlessCalling_of_free (SortedMap.contains_eq_false_iff.mpr free), parks]

theorem step_park_of_error {fault : Error} {engine : Engine} (free : s.calls.find? id = none)
    (refuses : Engine.park id s.engine = .error fault engine) :
    s.step (.park id) = { s with engine } := by
  simp only [step, unlessCalling_of_free (SortedMap.contains_eq_false_iff.mpr free), refuses]

theorem step_suspend_calling {p : Parked} (calling : s.calls.find? id = some (.parked p)) :
    (s.step (.suspend id)).calls.find? id = some (.suspended p) := by
  simp only [step, calling, SortedMap.find?_insert_self]

theorem step_wake_free {p : Parked} (calling : s.calls.find? id = some (.suspended p)) :
    (s.step (.wake id)).calls.find? id = none := by
  simp only [step, calling, SortedMap.find?_erase_self]

/-- Who wakes up starts over on the newest snapshot. -/
theorem step_wake_starts {p : Parked} (sound : s.core.Sound fun _ => True)
    (calling : s.calls.find? id = some (.suspended p)) :
    ∃ t, (s.step (.wake id)).engine.held.find? id = some t ∧
      t.StartsOn (s.step (.wake id)).engine.store.heap.head := by
  obtain ⟨t, held, active, empty⟩ := sound.calls id _ calling
  obtain ⟨entries, frames⟩ := empty p rfl
  have hwake := Engine.wake_eq (e := s.engine) held p
  simp only [step, calling, Step.after_of_ok hwake]
  exact ⟨_, SortedMap.find?_insert_self _ _ _, active, rfl, entries, frames⟩

/-- A commit, and the transaction is let go of. -/
theorem run_commit_drop (free : s.calls.find? id = none) :
    s.run [.publish id, .conclude id, .drop id] =
      ⟨(Engine.drop id).after ((Engine.commit id).after s.engine), s.calls⟩ := by
  have hrun : s.run [.publish id, .conclude id, .drop id] =
      (s.run [.publish id, .conclude id]).step (.drop id) := rfl
  rw [hrun, run_commit free]
  exact step_drop free

/-- A new transaction has taken the place of one that is gone. -/
structure Replaces (s : Session) (new old : TxnId) : Prop where
  newer : old < new
  gone : s.engine.held.find? old = none
  free : s.calls.find? new = none
  starts : ∃ t, s.engine.held.find? new = some t ∧ t.StartsOn s.engine.store.heap.head

/-- A commit that fails, and a new transaction in place of the old one. -/
theorem run_restart {fault : Error} {engine : Engine} (sound : s.core.Sound fun _ => True)
    (free : s.calls.find? id = none) (used : id < s.engine.store.nextTransaction)
    (failed : Engine.commit id s.engine = .error fault engine) :
    let s' := s.run [.publish id, .conclude id, .begin, .drop id]
    s' = ⟨(Engine.drop id).after (Engine.begin.after engine), s.calls⟩ ∧
    s'.Replaces engine.store.nextTransaction id ∧
    s.engine.store.nextTransaction ≤ engine.store.nextTransaction ∧
    commits [.publish id, .conclude id, .begin, .drop id] s = [] := by
  have hcommit : s.run [.publish id, .conclude id] = ⟨engine, s.calls⟩ :=
    (run_commit free).trans (congrArg (Session.mk · s.calls) (Step.after_of_error failed))
  have hrun : s.run [.publish id, .conclude id, .begin, .drop id] =
      (step ⟨engine, s.calls⟩ .begin).step (.drop id) := by
    rw [← hcommit]
    rfl
  have hsound := sound_run_any sound [.publish id, .conclude id]
  have hgrown := next_le_run sound [.publish id, .conclude id]
  rw [hcommit] at hsound hgrown
  have hnewer := Nat.lt_of_lt_of_le used hgrown
  obtain ⟨t, held, starts⟩ := step_begin_starts ⟨engine, s.calls⟩
  obtain ⟨heap, others⟩ := step_drop_rest (s := step ⟨engine, s.calls⟩ .begin) free
  refine ⟨hrun.trans (step_drop free), ?_, hgrown, ?_⟩
  · rw [hrun]
    refine ⟨hnewer, step_drop_absent free, ?_, t, (others _ (Nat.ne_of_gt hnewer)).trans held,
      by rwa [heap]⟩
    rw [step_drop (s := step ⟨engine, s.calls⟩ .begin) free]
    exact next_free hsound
  · exact (commits_append [.publish id, .conclude id] [.begin, .drop id] s).trans
      (by rw [commits_of_failed sound failed]; rfl)

/-- A whole wait: the transaction stays in its call whatever others do, and at the end it is out of it
and starts over. -/
theorem run_wait_starts {p : Parked} {engine : Engine} {others later : List Action}
    (sound : s.core.Sound fun _ => True) (free : s.calls.find? id = none)
    (parks : Engine.park id s.engine = .ok p engine)
    (spared : ∀ a ∈ others ++ later, ¬ a.Closes id) :
    let s' := s.run (.park id :: (others ++ .suspend id :: (later ++ [.wake id])))
    s'.calls.find? id = none ∧
      ∃ t, s'.engine.held.find? id = some t ∧ t.StartsOn s'.engine.store.heap.head := by
  have hparked : (s.step (.park id)).calls.find? id = some (.parked p) := by
    rw [step_park_of_ok free parks]
    exact SortedMap.find?_insert_self _ _ _
  have hsound := sound_step (a := .park id) trivial sound
  have hwaiting := calling_run hsound (fun a ha => spared a (List.mem_append_left _ ha)) hparked
  have hsound' := sound_run_any hsound (others ++ [.suspend id])
  have hsuspended : ((s.step (.park id)).run (others ++ [.suspend id])).calls.find? id =
      some (.suspended p) := by
    rw [run_append]
    exact step_suspend_calling hwaiting
  have hasleep := calling_run hsound' (fun a ha => spared a (List.mem_append_right _ ha)) hsuspended
  have hrun : s.run (.park id :: (others ++ .suspend id :: (later ++ [.wake id]))) =
      (((s.step (.park id)).run (others ++ [.suspend id])).run later).step (.wake id) := by
    rw [← run_append]
    simp [run, List.foldl_append]
  rw [hrun]
  exact ⟨step_wake_free hasleep, step_wake_starts (sound_run_any hsound' later) hasleep⟩

end Session

namespace Program

variable {ε α : Type} {call : Atomic ε α} {limit : Option UInt32} {calls : ε → SortedMap TxnId InCall}
  {part : List Action → Prop} {turn next : Turn ε} {id : TxnId} {w left : World ε}

/-! ## Turns that are made of actions -/

/-- Runs in which nothing is done with a transaction but its operations. -/
def Spares (id : TxnId) (actions : List Action) : Prop := ∀ a ∈ actions, ¬ a.Closes id

/-- A program that spares a transaction leaves it outside of calls. -/
theorem Acts.free {program : Program ε α} (acts : program.Acts (Spares id) calls w)
    (sound : (w.session calls).core.Sound fun _ => True) (free : (calls w.env).find? id = none)
    (ends : EndsIn (program w) left) : (calls left.env).find? id = none := by
  obtain ⟨actions, spares, hrun⟩ := acts left ends
  have hfree := Session.free_run sound spares free
  rwa [hrun] at hfree

/-- How a wait comes out. The transaction has parked, was suspended and woke up again, and others
acted meanwhile; or there was nothing that it could wait for. -/
inductive Waits (part : List Action → Prop) (calls : ε → SortedMap TxnId InCall) (id : TxnId)
    (w : World ε) : EStateM.Result Exit (World ε) Unit → Prop
  | woken {p : Parked} {engine : Engine} {woken : World ε} {others later : List Action}
      (parks : Engine.park id w.engine = .ok p engine) (first : part others) (second : part later)
      (spared : Spares id (others ++ later))
      (run : (w.session calls).run (.park id :: (others ++ .suspend id :: (later ++ [.wake id]))) =
        woken.session calls) : Waits part calls id w (.ok () woken)
  | refused {fault : Error} {left : World ε}
      (refuses : Engine.park id w.engine = .error fault left.engine) (same : left.env = w.env) :
      Waits part calls id w (.error (.failed fault) left)
  | stuck (left : World ε) : Waits part calls id w (.error .stuck left)

/-- Body and wait of a turn are made of actions, in parts of the given kind. By the end of the body the
turn's transaction is outside of calls; others may be inside of theirs. -/
structure Turn.Fits (turn : Turn ε) (call : Atomic ε α) (calls : ε → SortedMap TxnId InCall)
    (part : List Action → Prop) : Prop where
  body : (call.body turn.done.runs turn.id).Acts part calls turn.world
  free : ∀ left, EndsIn (call.ran turn) left → (calls left.env).find? turn.id = none
  wait : ∀ left, call.ran turn = .error (.failed .retry) left →
    Waits part calls turn.id left (call.wait turn.id left)

theorem Turn.Fits.run_body (fits : turn.Fits call calls part) (ends : EndsIn (call.ran turn) left) :
    ∃ acts, part acts ∧ (turn.world.session calls).run acts = left.session calls ∧
      (calls left.env).find? turn.id = none := by
  obtain ⟨acts, body, run⟩ := fits.body left ends
  exact ⟨acts, body, run, fits.free left ends⟩

/-- How a turn begins: with a transaction that is in no call and starts on the newest snapshot. -/
structure Turn.Regular (turn : Turn ε) (calls : ε → SortedMap TxnId InCall) : Prop where
  sound : (turn.world.session calls).core.Sound fun _ => True
  free : (calls turn.world.env).find? turn.id = none
  fresh : ∃ t, turn.world.engine.held.find? turn.id = some t ∧
    t.StartsOn turn.world.engine.store.heap.head

/-- The actions of a turn: those of its body, which leads to the session between, then its own, with
those of others while it waits. -/
inductive Passage (call : Atomic ε α) (calls : ε → SortedMap TxnId InCall) (part : List Action → Prop)
    (turn : Turn ε) : List Action → Prop
  | conflicted {x : α} {left : World ε} {acts : List Action} (ran : call.ran turn = .ok x left)
      (body : part acts) (run : (turn.world.session calls).run acts = left.session calls)
      (free : (calls left.env).find? turn.id = none) :
      Passage call calls part turn
        (acts ++ [.publish turn.id, .conclude turn.id, .begin, .drop turn.id])
  | waited {left : World ε} {acts others later : List Action}
      (ran : call.ran turn = .error (.failed .retry) left) (body : part acts) (first : part others)
      (second : part later) (spared : Spares turn.id (others ++ later)) :
      Passage call calls part turn
        (acts ++ .park turn.id :: (others ++ .suspend turn.id :: (later ++ [.wake turn.id])))
  | committed {x : α} {left : World ε} {acts : List Action} (ran : call.ran turn = .ok x left)
      (body : part acts) (run : (turn.world.session calls).run acts = left.session calls)
      (free : (calls left.env).find? turn.id = none) :
      Passage call calls part turn (acts ++ [.publish turn.id, .conclude turn.id, .drop turn.id])
  | abandoned {fault : Error} {left waiting : World ε} {acts tried : List Action}
      (ran : call.ran turn = .error (.failed fault) left) (body : part acts)
      (unparked : tried = [] ∨ tried = [.park turn.id])
      (run : (turn.world.session calls).run (acts ++ tried) = waiting.session calls)
      (free : (calls waiting.env).find? turn.id = none) :
      Passage call calls part turn (acts ++ (tried ++ [.abort turn.id, .drop turn.id]))

/-- What a transaction publishes in a run it publishes in a part. -/
def PublishesInParts (part : List Action → Prop) (id : TxnId) (log : List Committed) : Prop :=
  ∀ T ∈ log, T.id = id → ∃ acts, part acts ∧ .publish id ∈ acts

/-- What follows a part and publishes nothing leaves it at that. -/
theorem publishesInParts_append {s : Session} {acts own : List Action}
    (sound : s.core.Sound fun _ => True) (body : part acts)
    (silent : Session.commits own (s.run acts) = []) :
    PublishesInParts part id (Session.commits (acts ++ own) s) := by
  intro T published hid
  rw [Session.commits_append, silent, List.append_nil] at published
  exact ⟨acts, body, hid ▸ Session.publish_mem_of_commits sound published⟩

/-- The first turn begins as it should. -/
theorem Turn.regular_first (sound : (w.session calls).core.Sound fun _ => True) :
    (Turn.first w).Regular calls where
  sound := Session.sound_step (a := .begin) trivial sound
  free := Session.next_free sound
  fresh := Session.step_begin_starts (w.session calls)

/-- The calls in progress with one more, of a transaction that has parked. -/
def withParked (calls : ε → SortedMap TxnId InCall) (id : TxnId) (p : Parked) :
    ε → SortedMap TxnId InCall :=
  fun env => (calls env).insert id (.parked p)

/-- The end of a wait, once the transaction can be woken. -/
theorem wake_up {p : Parked} (sound : (w.session (withParked calls id p)).core.Sound fun _ => True)
    (free : (calls w.env).find? id = none) (wakeable : w.engine.isBlocked id = false) :
    ∃ woken : World ε,
      (ensureWakeable id >>= fun _ => lift (Engine.suspend id) >>= fun _ => lift (Engine.wake id p)) w =
        .ok () woken ∧
      (w.session (withParked calls id p)).run [.suspend id, .wake id] = woken.session calls := by
  have hcalling : (w.session (withParked calls id p)).calls.find? id = some (.parked p) :=
    SortedMap.find?_insert_self _ _ _
  obtain ⟨t, held, -⟩ := sound.calls id _ hcalling
  have hsuspend := Engine.suspend_eq (e := w.engine) held
  have hensure : ensureWakeable id w = .ok () w := if_neg (by simp [wakeable])
  let suspended := (Engine.suspend id).after w.engine
  have hheld : suspended.held.find? id =
      some { t with entries := ∅, frames := [], liveVersion := none } := by
    simp only [suspended, Step.after_of_ok hsuspend, SortedMap.find?_insert_self]
  have hwake := Engine.wake_eq hheld p
  refine ⟨{ w with engine := (Engine.wake id p).after suspended }, ?_, ?_⟩
  · rw [bind_of_ok hensure, bind_of_ok (lift_of_ok hsuspend), ← Step.after_of_ok hsuspend]
    rw [Step.after_of_ok hwake]
    exact lift_of_ok hwake
  · change ((w.session (withParked calls id p)).step (.suspend id)).step (.wake id) = _
    simp only [Session.step, World.session, withParked, SortedMap.find?_insert_self,
      SortedMap.insert_insert, SortedMap.erase_insert free, suspended]

/-- A retry is such a wait, where what goes on meanwhile is made of actions, leaves the transaction
alone and does not fail. -/
theorem waits_retryWith {between : Program ε Unit} (sound : (w.session calls).core.Sound fun _ => True)
    (free : (calls w.env).find? id = none) (nothing : part [])
    (unfailing : ∀ w fault left, between w ≠ .error (.failed fault) left)
    (stays : ∀ w' left, (calls w'.env).find? id = none → between w' = .ok () left →
      (calls left.env).find? id = none)
    (acts : ∀ p engine, Engine.park id w.engine = .ok p engine →
      (World.session { w with engine } (withParked calls id p)).core.Sound (fun _ => True) →
      between.Acts (fun acts => part acts ∧ Spares id acts) (withParked calls id p)
        { w with engine }) :
    Waits part calls id w (retryWith id between w) := by
  cases hpark : Engine.park id w.engine with
  | error fault engine =>
    have hretry : retryWith id between w = .error (.failed fault) { w with engine } :=
      bind_of_error (lift_of_error hpark)
    rw [hretry]
    exact .refused hpark rfl
  | ok p engine =>
    have hstep : (w.session calls).step (.park id) =
        World.session { w with engine } (withParked calls id p) :=
      Session.step_park_of_ok free hpark
    have hretry : retryWith id between w = (between >>= fun _ => ensureWakeable id >>= fun _ =>
        lift (Engine.suspend id) >>= fun _ => lift (Engine.wake id p)) { w with engine } :=
      bind_of_ok (lift_of_ok hpark)
    have hsound := Session.sound_step (a := .park id) trivial sound
    rw [hstep] at hsound
    rw [hretry]
    cases hbetween : between { w with engine } with
    | error exit left =>
      rw [bind_of_error hbetween]
      cases exit with
      | failed fault => exact absurd hbetween (unfailing _ fault left)
      | stuck => exact .stuck left
    | ok u left =>
      obtain ⟨others, ⟨hothers, spared⟩, hrun⟩ :=
        acts p engine hpark hsound left (.of_ok hbetween)
      rw [bind_of_ok hbetween]
      cases hblocked : left.engine.isBlocked id with
      | true =>
        have hstuck : ensureWakeable id left = .error .stuck left := if_pos hblocked
        rw [bind_of_error hstuck]
        exact .stuck left
      | false =>
        have hleft := Session.sound_run_any hsound others
        rw [hrun] at hleft
        obtain ⟨woken, hwoken, hrun'⟩ := wake_up hleft (stays { w with engine } left free hbetween) hblocked
        rw [hwoken]
        refine @Waits.woken _ ε part calls id w p engine woken others [] hpark hothers nothing
          (by simpa using spared) ?_
        change ((w.session calls).step (.park id)).run (others ++ [.suspend id, .wake id]) = _
        rw [hstep, Session.run_append, hrun, hrun']

/-- The number of a turn's transaction stays used. -/
theorem Turn.Regular.used_run (regular : turn.Regular calls) (actions : List Action) :
    turn.id < ((turn.world.session calls).run actions).engine.store.nextTransaction := by
  obtain ⟨t, held, -⟩ := regular.fresh
  exact Nat.lt_of_lt_of_le (regular.sound.held turn.id t held).begun
    (Session.next_le_run regular.sound actions)

/-- Who has waited starts over as it should. -/
theorem Waits.regular {woken : World ε} (waits : Waits part calls id w (.ok () woken))
    (sound : (w.session calls).core.Sound fun _ => True) (free : (calls w.env).find? id = none)
    (done : Attempts) : (Turn.mk done id woken).Regular calls := by
  cases waits with
  | @woken p engine _ others later parks first second spared run =>
    have hsound := Session.sound_run_any sound
      (.park id :: (others ++ .suspend id :: (later ++ [.wake id])))
    obtain ⟨hfree, hstarts⟩ := Session.run_wait_starts sound free parks spared
    rw [run] at hsound hfree hstarts
    exact ⟨hsound, hfree, hstarts⟩

/-- The next turn has a new transaction, whose number nobody had before. -/
structure Turn.Renews (next turn : Turn ε) (calls : ε → SortedMap TxnId InCall) (log : List Committed) :
    Prop where
  replaces : (next.world.session calls).Replaces next.id turn.id
  unused : turn.world.engine.store.nextTransaction ≤ next.id
  before : ∀ T ∈ log, T.id < next.id

/-- A call goes on to its next turn by actions, of which those that are its own publish nothing. -/
theorem Atomic.GoesOn.passes (goesOn : call.GoesOn limit turn next) (fits : turn.Fits call calls part)
    (regular : turn.Regular calls) :
    ∃ actions, Passage call calls part turn actions ∧
      (turn.world.session calls).run actions = next.world.session calls ∧ next.Regular calls ∧
      PublishesInParts part turn.id (Session.commits actions (turn.world.session calls)) ∧
      (next.id = turn.id ∨
        next.Renews turn calls (Session.commits actions (turn.world.session calls))) := by
  cases goesOn with
  | @conflicted x left fault engine ran failed retryable room =>
    obtain ⟨acts, body, hrun, hfree⟩ := fits.run_body (.of_ok ran)
    have hsound := Session.sound_run_any regular.sound acts
    have hused := regular.used_run acts
    have hlater := Session.next_le_run regular.sound acts
    rw [hrun] at hsound hused hlater
    obtain ⟨hrestart, hreplaces, hgrown, hsilent⟩ :=
      Session.run_restart hsound hfree hused failed
    rw [hrestart] at hreplaces
    have hwhole : (turn.world.session calls).run
        (acts ++ [.publish turn.id, .conclude turn.id, .begin, .drop turn.id]) =
        (Atomic.afterConflict turn { left with engine }).world.session calls := by
      rw [Session.run_append, hrun, hrestart]
      rfl
    rw [← hrun] at hsilent
    refine ⟨_, .conflicted ran body hrun hfree, hwhole, ⟨?_, hreplaces.free, hreplaces.starts⟩,
      publishesInParts_append regular.sound body hsilent, ?_⟩
    · rw [← hwhole]
      exact Session.sound_run_any regular.sound _
    · refine .inr ⟨hreplaces, Nat.le_trans hlater hgrown, fun T published => ?_⟩
      rw [Session.commits_append, hsilent, List.append_nil] at published
      have hbefore := (Session.commits_present regular.sound published).1
      rw [hrun] at hbefore
      exact Nat.lt_of_lt_of_le hbefore hgrown
  | @waited left woken ran waited =>
    obtain ⟨acts, body, hrun, hfree⟩ := fits.run_body (.of_failed ran)
    have hwaits := fits.wait left ran
    rw [waited] at hwaits
    have hsound := Session.sound_run_any regular.sound acts
    rw [hrun] at hsound
    have hregular := hwaits.regular hsound hfree { turn.done with runs := turn.done.runs + 1 }
    cases hwaits with
    | @woken p engine _ others later parks first second spared run =>
      refine ⟨_, .waited ran body first second spared, ?_, hregular, ?_, .inl rfl⟩
      · rw [Session.run_append, hrun, run]
        rfl
      · intro T published hid
        have hmem := Session.publish_mem_of_commits regular.sound published
        simp only [List.mem_append, List.mem_cons, List.not_mem_nil, reduceCtorEq, or_false,
          false_or, hid] at hmem
        rcases hmem with hmem | hmem | hmem
        · exact ⟨acts, body, hmem⟩
        · exact ⟨others, first, hmem⟩
        · exact ⟨later, second, hmem⟩

/-- The transaction of a turn is there still when its body has ended, if the parts keep it. -/
theorem Turn.Regular.held_run (regular : turn.Regular calls) {acts : List Action}
    (kept : .drop turn.id ∉ acts) :
    ∃ t, ((turn.world.session calls).run acts).engine.held.find? turn.id = some t := by
  obtain ⟨t, held, -⟩ := regular.fresh
  exact Session.held_run regular.sound kept ⟨t, held⟩

/-- Abandoning a transaction, as actions. -/
theorem run_abandon {t : Transaction} (held : w.engine.held.find? id = some t)
    (free : (calls w.env).find? id = none) {fault : Error}
    (ends : EndsIn (abandon (α := α) id fault w) left) :
    (w.session calls).run [.abort id, .drop id] = left.session calls := by
  rw [abandon_eq held] at ends
  cases ends
  change ((w.session calls).step (.abort id)).step (.drop id) = _
  rw [Session.step_abort free, Session.step_drop free]
  rfl

/-- A call ends by actions, of which those that are its own publish something only where it
returns. -/
theorem Atomic.Ends.passes {result : EStateM.Result Exit (World ε) α} (ends : call.Ends limit turn result)
    (fits : turn.Fits call calls part) (kept : ∀ acts, part acts → .drop turn.id ∉ acts)
    (regular : turn.Regular calls) (hleft : EndsIn result left) :
    ∃ actions, Passage call calls part turn actions ∧
      (turn.world.session calls).run actions = left.session calls ∧
      ((∀ x, result ≠ .ok x left) →
        PublishesInParts part turn.id (Session.commits actions (turn.world.session calls))) := by
  cases ends with
  | @returned x between v engine ran committed =>
    cases hleft
    obtain ⟨acts, body, hrun, hfree⟩ := fits.run_body (.of_ok ran)
    refine ⟨_, .committed ran body hrun hfree, ?_,
      fun hfailed => absurd rfl (hfailed x)⟩
    rw [Session.run_append, hrun, Session.run_commit_drop hfree, World.session,
      Step.after_of_ok committed]
    rfl
  | @refused x between fault engine ran failed final =>
    cases hleft
    obtain ⟨acts, body, hrun, hfree⟩ := fits.run_body (.of_ok ran)
    have hsound := Session.sound_run_any regular.sound acts
    rw [hrun] at hsound
    have hsilent : Session.commits [.publish turn.id, .conclude turn.id, .drop turn.id]
        (between.session calls) = [] :=
      (Session.commits_append [.publish turn.id, .conclude turn.id] [.drop turn.id] _).trans
        (by rw [Session.commits_of_failed hsound failed]; rfl)
    rw [← hrun] at hsilent
    refine ⟨_, .committed ran body hrun hfree, ?_,
      fun _ => publishesInParts_append regular.sound body hsilent⟩
    rw [Session.run_append, hrun, Session.run_commit_drop hfree, World.session,
      Step.after_of_error failed]
    rfl
  | @failed fault between ran final =>
    obtain ⟨acts, body, hrun, hfree⟩ := fits.run_body (.of_failed ran)
    obtain ⟨t, held⟩ := regular.held_run (kept acts body)
    rw [hrun] at held
    refine ⟨_, .abandoned ran body (.inl rfl) (by rwa [List.append_nil]) hfree, ?_,
      fun _ => publishesInParts_append regular.sound body rfl⟩
    rw [Session.run_append, hrun]
    exact run_abandon held hfree hleft
  | @unwoken fault between waiting ran lost =>
    obtain ⟨acts, body, hrun, hfree⟩ := fits.run_body (.of_failed ran)
    have hwaits := fits.wait between ran
    rw [lost] at hwaits
    cases hwaits with
    | refused refuses same =>
      have hpark : (between.session calls).step (.park turn.id) = waiting.session calls := by
        rw [Session.step_park_of_error hfree refuses, World.session, World.session, same]
      have hrun' : (turn.world.session calls).run (acts ++ [.park turn.id]) = waiting.session calls := by
        rw [Session.run_append, hrun]
        exact hpark
      have hkept : .drop turn.id ∉ acts ++ [.park turn.id] := by simpa using kept acts body
      obtain ⟨t, held⟩ := regular.held_run hkept
      rw [hrun'] at held
      refine ⟨_, .abandoned ran body (.inr rfl) hrun' (by rwa [same]), ?_,
        fun _ => publishesInParts_append regular.sound body rfl⟩
      rw [← List.append_assoc, Session.run_append, hrun']
      exact run_abandon held (by rwa [same]) hleft
  | stuck => cases hleft

/-- A call into which nobody gets fits where its body does. -/
theorem Turn.Regular.fits_ofBody {body : TxnId → Program ε α} (regular : turn.Regular calls)
    (nothing : part []) (acts : (body turn.id).Acts part calls turn.world)
    (free : ∀ left, EndsIn (body turn.id turn.world) left → (calls left.env).find? turn.id = none) :
    turn.Fits (.ofBody body) calls part := by
  refine ⟨acts, free, fun left ran => ?_⟩
  have hends : EndsIn (body turn.id turn.world) left := .of_failed ran
  obtain ⟨hsound, -⟩ := acts.sound regular.sound hends
  have hstays : ∀ w' left', (calls w'.env).find? turn.id = none →
      (pure () : Program ε Unit) w' = .ok () left' → (calls left'.env).find? turn.id = none := by
    rintro w' left' hfree ⟨⟩
    exact hfree
  exact waits_retryWith hsound (free left hends) nothing (fun _ _ _ => nofun) hstays
    fun p engine hpark hparked => acts_pure ⟨nothing, nofun⟩ ()

/-! ## Whole calls -/

/-- A kind of runs that go on with actions of a transaction's own, whole commits among them. -/
structure Allows (orderly : List Action → Prop) (id : TxnId) : Prop where
  append : ∀ xs ys, orderly xs → orderly ys → orderly (xs ++ ys)
  commit : orderly [.publish id, .conclude id]
  begin : orderly [.begin]
  own : ∀ a, a.Closes id → a ≠ .publish id → orderly [a]

/-- A turn is of the same kind as its parts. -/
theorem Passage.orderly {kind : List Action → Prop} {actions : List Action}
    (passage : Passage call calls part turn actions) (parts : ∀ acts, part acts → kind acts)
    (allows : Allows kind turn.id) : kind actions := by
  have hown : ∀ a, a.Closes turn.id → a ≠ .publish turn.id → ∀ xs, kind xs → kind (a :: xs) :=
    fun a closes unpublished xs hxs => allows.append [a] xs (allows.own a closes unpublished) hxs
  have hdrop : kind [.drop turn.id] := allows.own (.drop turn.id) rfl (by simp)
  have habandon : kind [.abort turn.id, .drop turn.id] := hown (.abort turn.id) rfl (by simp) _ hdrop
  cases passage with
  | @conflicted _ _ acts ran body run free =>
    refine allows.append _ _ (parts acts body) (allows.append _ _ allows.commit ?_)
    exact allows.append [.begin] [.drop turn.id] allows.begin hdrop
  | @waited _ acts others later ran body first second spared =>
    have hwake : kind [.wake turn.id] := allows.own (.wake turn.id) rfl (by simp)
    have hlater := allows.append _ _ (parts later second) hwake
    have hothers := allows.append _ _ (parts others first)
      (hown (.suspend turn.id) rfl (by simp) _ hlater)
    exact allows.append _ _ (parts acts body) (hown (.park turn.id) rfl (by simp) _ hothers)
  | @committed _ _ acts ran body run free =>
    exact allows.append _ _ (parts acts body) (allows.append _ _ allows.commit hdrop)
  | @abandoned _ _ _ acts tried ran body unparked run free =>
    refine allows.append _ _ (parts acts body) ?_
    rcases unparked with rfl | rfl
    · exact habandon
    · exact hown (.park turn.id) rfl (by simp) _ habandon

/-- Turns from one on: it alone if it ends the call, or else it and those from the next one on. -/
theorem Atomic.turnsFrom_succ (call : Atomic ε α) (limit : Option UInt32) (fuel : Nat)
    (turn : Turn ε) : call.turnsFrom limit (fuel + 1) turn = turn ::
      ((call.nextTurn limit turn).map (call.turnsFrom limit fuel)).getD [] := by
  rw [turnsFrom]
  cases call.nextTurn limit turn <;> rfl

theorem attempts_zero (call : Atomic ε α) (limit : Option UInt32) (n : Attempts) (id : TxnId)
    (w : World ε) : ∃ left, attempts call limit 0 n id w = .error .stuck left :=
  ⟨_, bind_of_ok (lift_drop id w)⟩

/-- From any turn on, a call whose parts are of some kind is a run of that kind. -/
theorem attempts_acts {kind : List Action → Prop} {fuel : Nat} {turn : Turn ε}
    (regular : turn.Regular calls) (allows : ∀ id, turn.id ≤ id → Allows kind id)
    (fits : ∀ turn' ∈ call.turnsFrom limit fuel turn,
      turn'.Fits call calls fun acts => kind acts ∧ .drop turn'.id ∉ acts) :
    (attempts call limit fuel turn.done turn.id).Acts kind calls turn.world := by
  induction fuel generalizing turn with
  | zero =>
    intro left ends
    obtain ⟨w, hstuck⟩ := attempts_zero call limit turn.done turn.id turn.world
    rw [hstuck] at ends
    cases ends
  | succ fuel ih =>
    intro left ends
    rw [Atomic.turnsFrom_succ] at fits
    have hturn := fits turn List.mem_cons_self
    have hallows := allows turn.id (Nat.le_refl _)
    rcases attempts_cases call limit fuel turn with ⟨next, hnext, goesOn, hrest⟩ | ⟨-, hends⟩
    · rw [hnext] at fits
      obtain ⟨actions, passage, hrun, hregular, -, which⟩ := goesOn.passes hturn regular
      have hle : turn.id ≤ next.id := by
        rcases which with hsame | hrenews
        · exact Nat.le_of_eq hsame.symm
        · exact Nat.le_of_lt hrenews.replaces.newer
      rw [hrest] at ends
      obtain ⟨later, hlater, hrun'⟩ := ih hregular (fun id hid => allows id (Nat.le_trans hle hid))
        (fun turn' hmem => fits turn' (List.mem_cons_of_mem _ hmem)) left ends
      exact ⟨actions ++ later,
        hallows.append _ _ (passage.orderly (fun _ hpart => hpart.1) hallows) hlater,
        by rw [Session.run_append, hrun, hrun']⟩
    · obtain ⟨actions, passage, hrun, -⟩ := hends.passes hturn (fun _ hpart => hpart.2) regular ends
      exact ⟨actions, passage.orderly (fun _ hpart => hpart.1) hallows, hrun⟩

/-- An atomic call whose parts are of some kind is a run of that kind. -/
theorem atomically_acts {kind : List Action → Prop} {fuel : Nat}
    (sound : (w.session calls).core.Sound fun _ => True)
    (allows : ∀ id, w.engine.store.nextTransaction ≤ id → Allows kind id)
    (fits : ∀ turn ∈ call.turns fuel w,
      turn.Fits call calls fun acts => kind acts ∧ .drop turn.id ∉ acts) :
    (atomically call fuel).Acts kind calls w := by
  intro left ends
  rw [atomically_eq] at ends
  obtain ⟨actions, hkind, hrun⟩ :=
    attempts_acts (Turn.regular_first sound) allows fits left ends
  refine ⟨.begin :: actions, ?_, hrun⟩
  exact (allows _ (Nat.le_refl _)).append [.begin] _ (allows _ (Nat.le_refl _)).begin hkind

theorem allows_all (id : TxnId) : Allows (fun _ => True) id where
  append _ _ _ _ := trivial
  commit := trivial
  begin := trivial
  own _ _ _ := trivial

/-- An atomic call that is made in a reached session goes on with a run of its kind. -/
theorem atomically_reaches {kind : List Action → Prop} {config : Config} {actions : List Action}
    {fuel : Nat} (here : w.session calls = (Session.ofConfig config).run actions)
    (allows : ∀ id, Allows kind id)
    (fits : ∀ turn ∈ call.turns fuel w,
      turn.Fits call calls fun acts => kind acts ∧ .drop turn.id ∉ acts)
    (ends : EndsIn (atomically call fuel w) left) :
    ∃ more, kind more ∧ (Session.ofConfig config).run (actions ++ more) = left.session calls := by
  have hsound := Session.sound_reached config actions
  rw [← here] at hsound
  obtain ⟨more, hkind, hrun⟩ := atomically_acts hsound (fun id _ => allows id) fits left ends
  exact ⟨more, hkind, by rw [Session.run_append, ← here, hrun]⟩

/-- The transactions of later turns are that of this one, or new. -/
theorem Atomic.id_of_mem_turnsFrom {kind : Turn ε → List Action → Prop} {fuel : Nat} {turn' : Turn ε}
    (regular : turn.Regular calls)
    (fits : ∀ turn' ∈ call.turnsFrom limit fuel turn, turn'.Fits call calls (kind turn'))
    (hmem : turn' ∈ call.turnsFrom limit fuel turn) :
    turn'.id = turn.id ∨ turn.world.engine.store.nextTransaction ≤ turn'.id := by
  induction fuel generalizing turn with
  | zero => cases hmem
  | succ fuel ih =>
    rw [turnsFrom_succ] at hmem fits
    rcases List.mem_cons.mp hmem with rfl | hmem
    · exact .inl rfl
    · rcases attempts_cases call limit fuel turn with ⟨next, hnext, goesOn, -⟩ | ⟨hlast, -⟩
      · rw [hnext] at hmem fits
        obtain ⟨actions, -, hrun, hregular, -, which⟩ :=
          goesOn.passes (fits turn List.mem_cons_self) regular
        have hgrown := Session.next_le_run regular.sound actions
        rw [hrun] at hgrown
        have hlater := ih hregular (fun turn' hmem => fits turn' (List.mem_cons_of_mem _ hmem)) hmem
        rcases hlater with hsame | hnew
        · rcases which with hkept | hrenews
          · exact .inl (hsame.trans hkept)
          · exact .inr (hsame ▸ hrenews.unused)
        · exact .inr (Nat.le_trans hgrown hnew)
      · rw [hlast] at hmem
        cases hmem

/-- A call fits where its body and its wait fit every turn that begins as it should. -/
theorem Atomic.fits_turns {kind : Turn ε → List Action → Prop} {fuel : Nat} {turn : Turn ε}
    (regular : turn.Regular calls)
    (fits : ∀ turn : Turn ε, turn.Regular calls → turn.Fits call calls (kind turn)) :
    ∀ turn' ∈ call.turnsFrom limit fuel turn, turn'.Fits call calls (kind turn') := by
  induction fuel generalizing turn with
  | zero => exact fun turn' hmem => by cases hmem
  | succ fuel ih =>
    intro turn' hmem
    rw [turnsFrom_succ] at hmem
    rcases List.mem_cons.mp hmem with rfl | hmem
    · exact fits turn' regular
    · rcases attempts_cases call limit fuel turn with ⟨next, hnext, goesOn, -⟩ | ⟨hlast, -⟩
      · rw [hnext] at hmem
        obtain ⟨-, -, -, hregular, -⟩ := goesOn.passes (fits turn regular) regular
        exact ih hregular turn' hmem
      · rw [hlast] at hmem
        cases hmem

end Program

end TransactionalHeap
