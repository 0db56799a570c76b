import TransactionalHeap.Object.Stock
import TransactionalHeap.Proofs.Engine.Terminal
import TransactionalHeap.Proofs.Program.Turns

/-!
# What an ended transaction answers

Every operation of a transaction checks first that it is active. After a transaction has ended, whatever
is asked of it is refused in its name, apart from repeating how it ended. Nothing is touched meanwhile,
except that attaching uses up a handle, and no program that was handed in is run
(`Session.ended_is_final`).
-/
namespace TransactionalHeap

section

variable [Transactables]

/-- What can be asked of a transaction, by the type of the result. -/
inductive Request (ε : Type) : Type → Type 1
  | attach (o : Object) : Request ε Handle
  | attachTo (h : Handle) (o : Object) : Request ε Unit
  | read (type : ObjectType) (h : Handle) : Request ε Object
  | write (type : ObjectType) (h : Handle) : Request ε Object
  | update (type : ObjectType) (h : Handle) (change : Object → Except Error Object) : Request ε Object
  | load (type : ObjectType) (h : Handle) (policy : ReadPolicy) : Request ε Loaded
  | get (l : Loaded) : Request ε Object
  | startOr : Request ε Unit
  | endOr : Request ε Unit
  | endOrElse : Request ε Unit
  | orElse {α : Type} (first second : Program ε α) : Request ε α
  | retry (between : Program ε Unit) : Request ε Unit
  | commit (between : Program ε Unit) : Request ε Version
  | abort : Request ε Unit

namespace Request

variable {ε α : Type}

def run (id : TxnId) : Request ε α → Program ε α
  | .attach o => .lift (Engine.attach id o)
  | .attachTo h o => .lift (Engine.on id (Transaction.attachTo h o))
  | .read type h => .lift (Engine.on id (Transaction.read type h))
  | .write type h => .lift (Engine.on id (Transaction.write type h))
  | .update type h change => .lift (Engine.on id (Transaction.update type h change))
  | .load type h policy => .lift (Engine.on id (Transaction.load type h policy))
  | .get l => .lift (Engine.on id l.get)
  | .startOr => .lift (Engine.on id Transaction.startOr)
  | .endOr => .lift (Engine.on id Transaction.endOr)
  | .endOrElse => .lift (Engine.on id Transaction.endOrElse)
  | .orElse first second => .orElse id first second
  | .retry between => .retryWith id between
  | .commit between => .commitWith id between
  | .abort => .lift (Engine.abort id)

/-- The answer of a transaction that has ended like this: a commit and an abort may be repeated, and a
detached object is there anyway. -/
def answer (id : TxnId) (status : TransactionStatus) : Request ε α → Except Error α
  | .commit _ =>
    match status with
    | .committed v => .ok v
    | .active | .aborted _ => .error (.deadTransaction id status.name)
  | .abort =>
    match status with
    | .aborted _ => .ok ()
    | .active | .committed _ => .error (.deadTransaction id status.name)
  | .get (.detached o) => .ok o
  | .get (.tracked ..) | .get (.deferred ..) | .attach _ | .attachTo .. | .read .. | .write ..
  | .update .. | .load .. | .startOr | .endOr | .endOrElse | .orElse .. | .retry _ =>
    .error (.deadTransaction id status.name)

/-- What a refused request leaves: attaching has used up a handle. -/
def refused (w : World ε) : Request ε α → World ε
  | .attach _ => { w with engine := { w.engine with nextHandle := w.engine.nextHandle + 1 } }
  | _ => w

/-- Requests one after the other, whatever is answered. -/
def askAll (id : TxnId) : List ((α : Type) × Request ε α) → Program ε Unit
  | [] => pure ()
  | asked :: later => do
    discard (Program.attempt (asked.2.run id))
    askAll id later

end Request

theorem Engine.on_of_failed {α : Type} {e : Engine} {id : TxnId} {t : Transaction} {fault : Error}
    {step : Step Transaction α} (held : e.held.find? id = some t) (failed : step t = .error fault t) :
    on id step e = .error fault e := by
  rw [on_of_error held failed, SortedMap.insert_of_find? held]

theorem Engine.attach_of_failed {e : Engine} {id : TxnId} {t : Transaction} {fault : Error}
    {o : Object} (held : e.held.find? id = some t)
    (failed : Transaction.attachTo ⟨e.nextHandle⟩ o t = .error fault t) :
    attach id o e = .error fault { e with nextHandle := e.nextHandle + 1 } :=
  (bind_of_ok rfl).trans ((bind_of_ok rfl).trans (bind_of_error
    (on_of_failed (e := { e with nextHandle := e.nextHandle + 1 }) held failed)))

namespace Program

variable {ε α : Type} {w : World ε} {id : TxnId} {t : Transaction} {fault : Error}

/-- An operation that fails without touching its transaction touches nothing. -/
theorem attempt_on_of_failed {step : Step Transaction α} (held : w.engine.held.find? id = some t)
    (failed : step t = .error fault t) :
    attempt (lift (Engine.on id step)) w = .ok (.error fault) w :=
  attempt_of_failed (lift_of_error (Engine.on_of_failed held failed))

end Program

namespace Request

open Program

variable {ε α : Type} {w : World ε} {id : TxnId} {t : Transaction}

/-- A transaction that has ended answers every request as it should, and that is all it does. -/
theorem attempt_run (held : w.engine.held.find? id = some t) (named : t.id = id)
    (ended : t.status ≠ .active) (r : Request ε α) :
    attempt (r.run id) w = .ok (r.answer id t.status) (r.refused w) := by
  subst named
  have hdead := Transaction.ensureActive_of_ended ended
  cases r with
  | attach o => exact attempt_of_failed (lift_of_error (Engine.attach_of_failed held (bind_of_error hdead)))
  | attachTo | read | write | load | startOr | endOr | endOrElse =>
    exact attempt_on_of_failed held (bind_of_error hdead)
  | update type h change =>
    exact attempt_on_of_failed held (bind_of_error (bind_of_error hdead))
  | get l =>
    cases l with
    | tracked | deferred => exact attempt_on_of_failed held (bind_of_error hdead)
    | detached o =>
      have hget : (Loaded.detached o).get t = .ok o t := rfl
      apply attempt_of_ok
      apply lift_of_ok
      simp only [Engine.on, held, hget, SortedMap.insert_of_find? held]
  | orElse first second =>
    exact attempt_of_failed (bind_of_error (lift_of_error (Engine.on_of_failed held
      (bind_of_error hdead))))
  | retry between =>
    exact attempt_of_failed (bind_of_error (lift_of_error (bind_of_error (Engine.on_of_failed held
      hdead))))
  | commit between =>
    have hbegin := Engine.beginCommit_of_ended held ended
    cases hstatus : t.status with
    | active => exact absurd hstatus ended
    | committed v =>
      rw [hstatus] at hbegin
      exact attempt_of_ok (bind_of_ok (lift_of_ok hbegin))
    | aborted reason =>
      rw [hstatus] at hbegin
      exact attempt_of_failed (bind_of_error (lift_of_error hbegin))
  | abort =>
    have habort := Engine.abort_eq held
    cases hstatus : t.status with
    | active => exact absurd hstatus ended
    | committed v =>
      rw [hstatus] at habort
      exact attempt_of_failed (lift_of_error habort)
    | aborted reason =>
      rw [hstatus] at habort
      exact attempt_of_ok (lift_of_ok habort)

theorem refused_eq (r : Request ε α) (w : World ε) : r.refused w =
    { w with engine := { w.engine with nextHandle := (r.refused w).engine.nextHandle } } := by
  cases r <;> rfl

/-- However often it is asked, a transaction that has ended leaves the world as it is, used handles
apart. -/
theorem askAll_eq (held : w.engine.held.find? id = some t) (named : t.id = id)
    (ended : t.status ≠ .active) (asked : List ((α : Type) × Request ε α)) :
    ∃ n, askAll id asked w = .ok () { w with engine := { w.engine with nextHandle := n } } := by
  induction asked generalizing w with
  | nil => exact ⟨w.engine.nextHandle, rfl⟩
  | cons r later ih =>
    have hone : (discard (attempt (r.2.run id)) : Program ε Unit) w = .ok () (r.2.refused w) :=
      bind_of_ok (attempt_run held named ended r.2)
    have hheld : (r.2.refused w).engine.held.find? id = some t := by
      rw [r.2.refused_eq w]
      exact held
    obtain ⟨n, hlater⟩ := ih hheld
    refine ⟨n, (bind_of_ok hone).trans (hlater.trans ?_)⟩
    rw [r.2.refused_eq w]

end Request

namespace Session

/-- A transaction that has ended answers whatever it is asked as it should, in any order and however
often, and nothing else comes of it: the engine stays as it is but for the handles that attaching uses
up, and so does whatever the programs that are handed in work on. Whoever else does anything, the
transaction stays the same until it is let go of. -/
theorem ended_is_final (config : Config) (actions : List Action) {id : TxnId} {t : Transaction}
    (held : ((ofConfig config).run actions).engine.held.find? id = some t)
    (ended : t.status ≠ .active) :
    let s := (ofConfig config).run actions
    (∀ (ε : Type) (env : ε) (asked : List ((α : Type) × Request ε α)), ∃ left : World ε,
      Request.askAll id asked ⟨s.engine, env⟩ = .ok () left ∧ left.env = env ∧
      left.engine = { s.engine with nextHandle := left.engine.nextHandle } ∧
      ∀ (α : Type) (r : Request ε α), ∃ after : World ε,
        Program.attempt (r.run id) left = .ok (r.answer id t.status) after) ∧
    ∀ later, (s.run later).engine.held.find? id = some t ∨
      (s.run later).engine.held.find? id = none := by
  intro s
  have hsound := sound_reached config actions
  have hnamed := (hsound.held id t held).id_eq
  refine ⟨fun ε env asked => ?_, fun later => ?_⟩
  · obtain ⟨n, hasked⟩ := Request.askAll_eq (w := ⟨s.engine, env⟩) held hnamed ended asked
    exact ⟨_, hasked, rfl, rfl, fun α r => ⟨_, r.attempt_run held hnamed ended⟩⟩
  · exact ended_run hsound held (endedFinal_reached config actions id t held ended) later

end Session

end

namespace Session

/-- A program that would count its runs, handed to a transaction that has committed. -/
theorem ended_is_final_once_committed :
    let s := (ofConfig {}).run [.begin, .attach 1 (.counter 5), .publish 1, .conclude 1]
    let count : Program Nat Unit := modify fun w => { w with env := w.env + 1 }
    ∃ t, s.engine.held.find? 1 = some t ∧ t.status = .committed 1 ∧ ∃ left : World Nat,
      Request.askAll 1 [⟨_, .orElse count count⟩, ⟨_, .attach (.counter 6)⟩] ⟨s.engine, 0⟩ =
        .ok () left ∧
      left.env = 0 ∧ ∃ after : World Nat,
        Program.attempt ((Request.commit count).run 1) left = .ok (.ok 1) after := by
  intro s count
  refine ⟨_, rfl, rfl, ?_⟩
  obtain ⟨hasked, -⟩ := @ended_is_final _ {}
    [.begin, .attach 1 (.counter 5), .publish 1, .conclude 1] 1 _ rfl (by decide)
  obtain ⟨left, hrun, henv, -, hanswer⟩ :=
    hasked Nat 0 [⟨_, .orElse count count⟩, ⟨_, .attach (.counter 6)⟩]
  exact ⟨left, hrun, henv, hanswer _ (.commit count)⟩

end Session

end TransactionalHeap
