import TransactionalHeap.Object.Stock
import TransactionalHeap.Proofs.Engine.GoingOn
import TransactionalHeap.Proofs.Object.Stock
import TransactionalHeap.Proofs.Program.Acting
import TransactionalHeap.Proofs.Transaction.Branching

/-!
# Alternatives

The first alternative runs in a branch. If it asks to retry, the second one finds the entries as they
were when the branch was opened, and what the first has read as read, so a retry of the second waits for
all of it (`Program.orElse_rolls_back`). What the alternatives are does not matter, as long as they leave
the open branches as they found them and the transaction does not start over; alternatives within
alternatives are among them (`Program.acts_orElse`).
-/
namespace TransactionalHeap

section

variable [Transactables] {ε α : Type}

/-- The world with the transaction put in place. -/
def World.put (w : World ε) (id : TxnId) (t : Transaction) : World ε :=
  { w with engine := { w.engine with held := w.engine.held.insert id t } }

@[simp] theorem World.held_put (w : World ε) (id : TxnId) (t : Transaction) :
    (w.put id t).engine.held.find? id = some t :=
  SortedMap.find?_insert_self _ _ _

/-- One world comes from another by actions in which the transaction goes on, and it is active then and
outside of calls. -/
structure World.GoesOn (calls : ε → SortedMap TxnId InCall) (id : TxnId) (actions : List Action)
    (w left : World ε) (t : Transaction) : Prop where
  goOn : Action.GoOn id actions
  run : (w.session calls).run actions = left.session calls
  free : (calls left.env).find? id = none
  held : left.engine.held.find? id = some t
  active : t.status = .active

/-- The transaction would have waited for the handle at some point of the run. -/
def Session.HasRead (s : Session) (id : TxnId) (actions : List Action) (h : Handle) : Prop :=
  ∃ before later t, actions = before ++ later ∧ (s.run before).engine.held.find? id = some t ∧
    h ∈ t.readSet

/-- A retry of the transaction would file its latch for these handles. -/
def Engine.WaitsFor (e : Engine) (id : TxnId) (handles : List Handle) : Prop :=
  ∀ p e', park id e = .ok p e' →
    ∃ store, Store.listen handles p.start e.store = .ok (p.latch, p.filed) store

theorem Engine.waitsFor_readSet {e : Engine} {id : TxnId} {t : Transaction}
    (held : e.held.find? id = some t) (active : t.status = .active) : e.WaitsFor id t.readSet := by
  intro p e' hpark
  rw [park_of_active held active] at hpark
  split at hpark
  · cases hpark
  · split at hpark
    · cases hpark
    · next latch filed store hlisten =>
      cases hpark
      exact ⟨store, hlisten⟩

/-- What was read in a run is still read at its end. -/
theorem Session.HasRead.mem_readSet {s : Session} {id : TxnId} {actions : List Action} {h : Handle}
    {t : Transaction} (hasRead : s.HasRead id actions h) (goOn : Action.GoOn id actions)
    (sound : s.core.Sound Object.Faithful) (held : (s.run actions).engine.held.find? id = some t)
    (active : t.status = .active) : h ∈ t.readSet := by
  obtain ⟨before, later, u, rfl, hu, hread⟩ := hasRead
  rw [run_append] at held
  have hbefore := sound_run (fun a ha => (goOn a (List.mem_append_left _ ha)).1) sound
  exact (later_run (fun a ha => goOn a (List.mem_append_right _ ha)) hbefore hu held active).reads h hread

namespace World.GoesOn

variable {calls : ε → SortedMap TxnId InCall} {id : TxnId} {actions : List Action} {w left : World ε}
  {t t' : Transaction}

theorem sound (goes : GoesOn calls id actions w left t')
    (sound : (w.session calls).core.Sound Object.Faithful) :
    (left.session calls).core.Sound Object.Faithful := by
  rw [← goes.run]
  exact Session.sound_run (fun a ha => (goes.goOn a ha).1) sound

theorem later (goes : GoesOn calls id actions w left t')
    (sound : (w.session calls).core.Sound Object.Faithful)
    (held : (w.session calls).engine.held.find? id = some t) : t.Later t' := by
  refine Session.later_run goes.goOn sound held ?_ goes.active
  rw [goes.run]
  exact goes.held

theorem mem_readSet {h : Handle} (goes : GoesOn calls id actions w left t')
    (sound : (w.session calls).core.Sound Object.Faithful)
    (hasRead : (w.session calls).HasRead id actions h) : h ∈ t'.readSet := by
  refine hasRead.mem_readSet goes.goOn sound ?_ goes.active
  rw [goes.run]
  exact goes.held

end World.GoesOn

namespace Program

variable {w opened left : World ε} {calls : ε → SortedMap TxnId InCall} {id : TxnId}
  {t t' : Transaction}
  {first second : Program ε α}

theorem lift_on_of_ok {β : Type} {step : Step Transaction β} {b : β}
    (held : w.engine.held.find? id = some t) (hrun : step t = .ok b t') :
    lift (Engine.on id step) w = .ok b (w.put id t') :=
  lift_of_ok (Engine.on_of_ok held hrun)

/-- An operation that succeeds, as an action. -/
theorem step_perform {op : Op} (free : (calls w.env).find? id = none)
    (held : w.engine.held.find? id = some t) (hrun : op.run t = .ok () t') :
    (w.session calls).step (.perform id op) = (w.put id t').session calls := by
  have hon := Engine.on_of_ok held hrun
  refine (Session.unlessCalling_of_free (SortedMap.contains_eq_false_iff.mpr free) _).trans ?_
  rw [Session.onEngine, show (w.session calls).engine = w.engine from rfl, Step.after_of_ok hon]
  rfl

/-! ## How alternatives run -/

theorem orElse_of_ok {a : α} {after : World ε}
    (hstart : lift (Engine.on id Transaction.startOr) w = .ok () opened)
    (hfirst : first opened = .ok a left)
    (hend : lift (Engine.on id Transaction.endOr) left = .ok () after) :
    orElse id first second w = .ok a after :=
  (bind_of_ok hstart).trans ((bind_of_ok (attempt_of_ok hfirst)).trans (bind_of_ok hend))

theorem orElse_of_retry {start : World ε}
    (hstart : lift (Engine.on id Transaction.startOr) w = .ok () opened)
    (hfirst : first opened = .error (.failed .retry) left)
    (hrollback : lift (Engine.on id Transaction.endOrElse) left = .ok () start) :
    orElse id first second w = second start :=
  (bind_of_ok hstart).trans ((bind_of_ok (attempt_of_failed hfirst)).trans (bind_of_ok hrollback))

/-- Alternatives that go on make a program that goes on, so alternatives may be nested. The transaction
stays outside of calls. -/
theorem acts_orElse (free : ∀ env, (calls env).find? id = none)
    (hfirst : ∀ w, first.Acts (Action.GoOn id) calls w)
    (hsecond : ∀ w, second.Acts (Action.GoOn id) calls w) :
    (orElse id first second).Acts (Action.GoOn id) calls w := by
  have hone : ∀ op : Op, op.Within Object.Faithful → ∀ w : World ε,
      Acts (Action.GoOn id) calls (lift (Engine.on id op.run)) w := fun op within w =>
    acts_perform (free w.env) op (.perform within)
  refine (hone .startOr trivial w).bind Action.GoOn.append fun _ opened _ => ?_
  refine (hfirst opened).attempt.bind Action.GoOn.append fun result left _ => ?_
  split
  · exact (hone .endOr trivial left).bind Action.GoOn.append fun _ _ _ => acts_pure .nil _
  · exact (hone .endOrElse trivial left).bind Action.GoOn.append fun _ start _ => hsecond start
  · exact (hone .dropFrame trivial left).bind Action.GoOn.append fun _ _ _ => acts_fail .nil _

/-! ## What the second alternative starts from -/

/-- The first alternative runs in a branch. If it returns, its effects are kept. If it asks to retry, the
second one runs instead. It starts with the entries of the time when the branch was opened, as for
statuses, buffered objects and what is to be written; what the first has attached is gone, what it has
read is still read, and no more branches are open than before. If the second one asks to retry as well,
that is the result, and everything is waited for that was read before, in the first or in the second. -/
theorem orElse_rolls_back (config : Config) (actions : List Action)
    (within : ∀ a ∈ actions, a.Within Object.Faithful)
    (reached : (Session.ofConfig config).run actions = w.session calls)
    (free : (calls w.env).find? id = none) (held : w.engine.held.find? id = some t)
    (active : t.status = .active) (first second : Program ε α) :
    ∃ f, let opened := w.put id { t with frames := f :: t.frames }
      lift (Engine.on id Transaction.startOr) w = .ok () opened ∧
      (∀ a left ended, first opened = .ok a left → left.engine.held.find? id = some ended →
        ended.status = .active → ended.frames = f :: t.frames →
        orElse id first second w = .ok a (left.put id { ended with frames := t.frames })) ∧
      ∀ left ended xs, first opened = .error (.failed .retry) left →
        World.GoesOn calls id xs opened left ended → ended.frames = f :: t.frames →
        ∃ start, t.RolledBack ended start ∧ start.readSet = ended.readSet ∧
          start.writeSet = t.writeSet ∧
          Entries.overlay start.entries = Entries.overlay t.entries ∧ start.depth = t.depth ∧
          (∀ h e, t.entries.find? h = none → ended.entries.find? h = some e → e.origin = none →
            start.entries.find? h = none ∧
            ∀ o, Transaction.attachTo h o start = .ok () (start.put h (.fresh h o))) ∧
          orElse id first second w = second (left.put id start) ∧
          ∀ final after ys, second (left.put id start) = .error (.failed .retry) final →
            World.GoesOn calls id ys (left.put id start) final after →
            orElse id first second w = .error (.failed .retry) final ∧
            final.engine.WaitsFor id after.readSet ∧
            ∀ h, (opened.session calls).HasRead id xs h ∨
              ((left.put id start).session calls).HasRead id ys h → h ∈ after.readSet := by
  have hsound : (w.session calls).core.Sound Object.Faithful := by
    rw [← reached]
    exact Session.sound_run within (Session.sound_ofConfig config)
  have tSound := (hsound.held id t held).sound
  obtain ⟨f, hcapture, -⟩ := tSound.capture
  have hstartOr := Transaction.startOr_eq active hcapture
  have hstart := lift_on_of_ok held hstartOr
  refine ⟨f, hstart, fun a left ended hfirst held₁ active₁ frames => ?_,
    fun left ended xs hfirst goes frames => ?_⟩
  · exact orElse_of_ok hstart hfirst (lift_on_of_ok held₁ (Transaction.endOr_eq active₁ frames))
  let branched : Transaction := { t with frames := f :: t.frames }
  have hopenedSound : ((w.put id branched).session calls).core.Sound Object.Faithful := by
    have hopened : (w.session calls).step (.perform id .startOr) = _ := step_perform free held hstartOr
    rw [← hopened]
    exact Session.sound_step trivial hsound
  have hopening : t.Later branched := ⟨rfl, fun _ hmem => hmem⟩
  have hlater : t.Later ended := hopening.trans (goes.later hopenedSound (w.held_put id branched))
  have hleftSound := goes.sound hopenedSound
  have endedSound := (hleftSound.held id ended goes.held).sound
  obtain ⟨start, hrollback, rolledBack⟩ :=
    tSound.rolledBack (fun _ ho => ho) active hcapture endedSound hlater frames
  have hstartSound : ((left.put id start).session calls).core.Sound Object.Faithful := by
    have hback : (left.session calls).step (.perform id .endOrElse) = _ :=
      step_perform goes.free goes.held hrollback
    rw [← hback]
    exact Session.sound_step trivial hleftSound
  have startSound := (hstartSound.held id start (left.held_put id start)).sound
  have hreads := rolledBack.readSet_eq tSound endedSound startSound hlater
  have hsecond : orElse id first second w = second (left.put id start) :=
    orElse_of_retry hstart hfirst (lift_on_of_ok goes.held hrollback)
  refine ⟨start, rolledBack, hreads, rolledBack.writeSet_eq, rolledBack.overlay_eq, ?_,
    fun h e absent attached fresh => rolledBack.attachable endedSound active hlater absent attached fresh,
    hsecond, fun final after ys hretry goes' => ⟨hsecond.trans hretry,
      Engine.waitsFor_readSet goes'.held goes'.active, ?_⟩⟩
  · rw [rolledBack.rest]
    rfl
  · rintro h (hasRead | hasRead)
    · have hmem := goes.mem_readSet hopenedSound hasRead
      exact (goes'.later hstartSound (left.held_put id start)).reads h (hreads ▸ hmem)
    · exact goes'.mem_readSet hstartSound hasRead

/-! ## Two transactions with alternatives -/

instance : DecidableEq Frame := fun f g =>
  decidable_of_iff (f.saved.entries = g.saved.entries)
    ⟨fun h => by
      obtain ⟨⟨entries, _⟩⟩ := f
      obtain ⟨⟨entries', _⟩⟩ := g
      cases h
      rfl, fun h => by rw [h]⟩

end Program

end

namespace Program

/-- Three counters are there, and a transaction has read the first. -/
def readFirst : List Action :=
  [.begin, .attach 1 (.counter 1), .attach 1 (.counter 2), .attach 1 (.counter 3), .publish 1,
    .conclude 1, .begin, .perform 2 (.read .counter ⟨1⟩)]

/-- An operation of the second transaction. -/
def perform (op : Op) : Program Unit Unit := lift (Engine.on 2 op.run)

def setTo (h : Handle) (value : Int64) : Op := .update .counter h fun _ => .ok (.counter value)

/-- Changes the second counter and thinks better of it, then attaches an object instead and opens the
first counter, and thinks better of that too. -/
def changesAround : Program Unit Unit := do
  orElse 2 (do perform (setTo ⟨2⟩ 5); fail .retry) (perform (.attachTo ⟨9⟩ (.counter 9)))
  perform (.write .counter ⟨1⟩)
  fail .retry

def readsThird : Program Unit Unit := do
  perform (.read .counter ⟨3⟩)
  fail .retry

theorem acts_perform_of_within {op : Op} (within : op.Within Object.Faithful) (w : World Unit) :
    (perform op).Acts (Action.GoOn 2) (fun _ => ∅) w := acts_perform rfl op (.perform within)

theorem changesAround_acts (w : World Unit) : changesAround.Acts (Action.GoOn 2) (fun _ => ∅) w := by
  have hset : (setTo ⟨2⟩ 5).Within Object.Faithful := by
    intro o o' _ ho'
    cases ho'
    rfl
  have hattach : (Op.attachTo ⟨9⟩ (.counter 9)).Within Object.Faithful :=
    (rfl : (Object.counter 9).Faithful)
  have hinner : ∀ w, (orElse 2 (do perform (setTo ⟨2⟩ 5); fail .retry)
      (perform (.attachTo ⟨9⟩ (.counter 9)))).Acts (Action.GoOn 2) (fun _ => ∅) w := fun w =>
    acts_orElse (fun _ => rfl)
      (fun w => (acts_perform_of_within hset w).bind Action.GoOn.append fun _ _ _ => acts_fail .nil _)
      (acts_perform_of_within hattach)
  have hwrite : (Op.write .counter ⟨1⟩).Within Object.Faithful := trivial
  exact (hinner w).bind Action.GoOn.append fun _ _ _ =>
    (acts_perform_of_within hwrite _).bind Action.GoOn.append fun _ _ _ => acts_fail .nil _

theorem readsThird_acts (w : World Unit) : readsThird.Acts (Action.GoOn 2) (fun _ => ∅) w := by
  have hread : (Op.read .counter ⟨3⟩).Within Object.Faithful := trivial
  exact (acts_perform_of_within hread w).bind Action.GoOn.append fun _ _ _ => acts_fail .nil _

/-- The world in which a program asks to retry. -/
def retried (program : Program Unit α) (w : World Unit) : Option (World Unit) :=
  match program w with
  | .error (.failed .retry) left => some left
  | _ => none

theorem eq_of_retried {program : Program Unit α} {w left : World Unit}
    (h : retried program w = some left) : program w = .error (.failed .retry) left := by
  unfold retried at h
  split at h
  · next hran =>
    cases h
    exact hran
  · cases h

theorem orElse_rolls_back_nested :
    let w : World Unit := ⟨((Session.ofConfig {}).run readFirst).engine, ()⟩
    ∃ (t ended start after : Transaction) (left final : World Unit),
      w.engine.held.find? 2 = some t ∧ t.RolledBack ended start ∧
      (ended.readSet, ended.writeSet) = ([⟨1⟩, ⟨2⟩], [⟨1⟩, ⟨9⟩]) ∧
      (start.readSet, start.writeSet) = ([⟨1⟩, ⟨2⟩], []) ∧
      readsThird (left.put 2 start) = .error (.failed .retry) final ∧
      orElse 2 changesAround readsThird w = .error (.failed .retry) final ∧
      final.engine.held.find? 2 = some after ∧ final.engine.WaitsFor 2 after.readSet ∧
      ⟨2⟩ ∈ after.readSet := by
  intro w
  have within : ∀ a ∈ readFirst, a.Within Object.Faithful := by
    intro a ha
    simp only [readFirst, List.mem_cons, List.not_mem_nil, or_false] at ha
    rcases ha with rfl | rfl | rfl | rfl | rfl | rfl | rfl | rfl <;> trivial
  have hreader : (w.engine.held.find? 2).map (fun t => (t.status, t.writeSet)) =
      some (.active, []) := by decide +kernel
  obtain ⟨t, held, ht⟩ := Option.map_eq_some_iff.mp hreader
  obtain ⟨active, unwritten⟩ := Prod.mk.inj ht
  have reached : (Session.ofConfig {}).run readFirst = w.session fun _ => ∅ := by rfl
  obtain ⟨f, hstart, -, hretry⟩ :=
    orElse_rolls_back {} readFirst within reached rfl held active changesAround readsThird
  -- The branch is opened, and the first alternative leaves it open.
  let opened : World Unit := ⟨(Engine.on 2 Transaction.startOr).after w.engine, ()⟩
  have hopened : w.put 2 { t with frames := f :: t.frames } = opened :=
    EndsIn.eq_of_lift (.of_ok hstart)
  have hfirst : ((retried changesAround opened).bind (·.engine.held.find? 2)).map
      (fun t => (t.status, t.frames, t.readSet, t.writeSet)) =
      (opened.engine.held.find? 2).map
        fun t => (.active, t.frames, [⟨1⟩, ⟨2⟩], [⟨1⟩, ⟨9⟩]) := by decide +kernel
  rw [← hopened, World.held_put] at hfirst
  obtain ⟨ended, hended, hleft⟩ := Option.map_eq_some_iff.mp hfirst
  obtain ⟨left, hretried, held₁⟩ := Option.bind_eq_some_iff.mp hended
  simp only [Prod.mk.injEq] at hleft
  obtain ⟨active₁, frames, hreads, hwrites⟩ := hleft
  have hran := eq_of_retried hretried
  obtain ⟨xs, goOn, hrun⟩ := changesAround_acts _ left (.of_failed hran)
  obtain ⟨start, rolledBack, hreads', hwrites', -, -, -, hsecond, hagain⟩ :=
    hretry left ended xs hran ⟨goOn, hrun, rfl, held₁, active₁⟩ frames
  -- The second alternative asks to retry too.
  have hends : ((retried (orElse 2 changesAround readsThird) w).bind (·.engine.held.find? 2)).map
      (·.status) = some .active := by decide +kernel
  obtain ⟨after, hafter, active₂⟩ := Option.map_eq_some_iff.mp hends
  obtain ⟨final, hfinal, held₂⟩ := Option.bind_eq_some_iff.mp hafter
  have hthird := hsecond.symm.trans (eq_of_retried hfinal)
  obtain ⟨ys, goOn', hrun'⟩ := readsThird_acts _ final (.of_failed hthird)
  obtain ⟨hresult, hwaits, hall⟩ := hagain final after ys hthird ⟨goOn', hrun', rfl, held₂, active₂⟩
  have hread : ⟨2⟩ ∈ after.readSet := by
    refine hall ⟨2⟩ (.inl ⟨xs, [], ended, (List.append_nil xs).symm, ?_, by rw [hreads]; decide⟩)
    rw [hrun]
    exact held₁
  exact ⟨t, ended, start, after, left, final, held, rolledBack, by rw [hreads, hwrites],
    by rw [hreads', hreads, hwrites', unwritten], hthird, hresult, held₂, hwaits, hread⟩

/-- Closes the branch, changes a counter and opens another branch. -/
def slipsOut : Program Unit α := do
  perform .endOr
  perform (setTo ⟨1⟩ 5)
  perform .startOr
  fail .retry

/-- Reads a counter, waits until somebody changes it, and opens a branch again. -/
def startsOver : Program Unit α := do
  perform (.read .counter ⟨2⟩)
  retryWith 2 do
    let other ← lift Engine.begin
    lift (Engine.on other (setTo ⟨2⟩ 7).run)
    discard (lift (Engine.commit other))
  perform .startOr
  fail .retry

/-- The read set and the number of open branches. -/
def readsAndDepth (w : World Unit) : Option (List Handle × Nat) :=
  (w.engine.held.find? 2).map fun t => (t.readSet, t.depth)

/-- It is not enough that a branch leaves as many branches open as it found. What was changed after it
had closed its own is not rolled back, and what was read before it has started over is not waited for. -/
theorem depth_is_not_enough :
    let w : World Unit := ⟨((Session.ofConfig {}).run readFirst).engine, ()⟩
    let opened : World Unit := ⟨(Engine.on 2 Transaction.startOr).after w.engine, ()⟩
    let readOne : Program Unit Object := lift (Engine.on 2 (Transaction.read .counter ⟨1⟩))
    readsAndDepth w = some ([⟨1⟩], 0) ∧ readsAndDepth opened = some ([⟨1⟩], 1) ∧
      (retried (slipsOut : Program Unit Object) opened).bind readsAndDepth = some ([⟨1⟩], 1) ∧
      readOne.run' w = some (.counter 1) ∧ (orElse 2 slipsOut readOne).run' w = some (.counter 5) ∧
      (retried (startsOver : Program Unit Object) opened).bind readsAndDepth = some ([], 1) ∧
      (retried (orElse 2 startsOver (fail .retry : Program Unit Object)) w).bind readsAndDepth =
        some ([], 0) := by
  decide +kernel

end Program

end TransactionalHeap
