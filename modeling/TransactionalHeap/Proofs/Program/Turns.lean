import TransactionalHeap.Program
import TransactionalHeap.Proofs.Engine.Steps

/-!
# The turns of an atomic call

An atomic call goes on in turns. Every turn runs the body once, on a transaction of its own or on one
that has waited, and leads to another turn or ends the call (`Program.attempts_cases`). The list of
turns is what a call has behind it when it ends, and the first of them starts with a new transaction.
-/
namespace TransactionalHeap

variable [Transactables]

namespace Program

variable {ε α β : Type} {w w' : World ε}

/-! ## How programs run -/

theorem lift_of_ok {step : Step Engine α} {a : α} {e : Engine} (h : step w.engine = .ok a e) :
    lift step w = .ok a { w with engine := e } := by
  simp only [lift, h]

theorem lift_of_error {step : Step Engine α} {fault : Error} {e : Engine}
    (h : step w.engine = .error fault e) :
    lift step w = .error (.failed fault) { w with engine := e } := by
  simp only [lift, h]

theorem lift_drop (id : TxnId) (w : World ε) :
    lift (Engine.drop id) w = .ok () { w with engine := (Engine.drop id).after w.engine } := by
  have hdrop := Engine.drop_eq id w.engine
  split at hdrop <;> rw [lift_of_ok hdrop, Step.after_of_ok hdrop]

theorem lift_begin (w : World ε) : lift Engine.begin w =
    .ok w.engine.store.nextTransaction { w with engine := Engine.begin.after w.engine } := by
  rw [Step.after_of_ok (Engine.begin_eq w.engine)]
  exact lift_of_ok (Engine.begin_eq w.engine)

theorem attempt_of_ok {program : Program ε α} {a : α} (h : program w = .ok a w') :
    attempt program w = .ok (.ok a) w' := by
  simp only [attempt, h]

theorem attempt_of_failed {program : Program ε α} {fault : Error}
    (h : program w = .error (.failed fault) w') : attempt program w = .ok (.error fault) w' := by
  simp only [attempt, h]

theorem attemptFor_of_ok {program : Program ε α} {a : α} (id : TxnId) (h : program w = .ok a w') :
    attemptFor id program w = .ok (.ok a) w' := by
  simp only [attemptFor, cleanup, attempt_of_ok h]

theorem attemptFor_of_failed {program : Program ε α} {fault : Error} (id : TxnId)
    (h : program w = .error (.failed fault) w') :
    attemptFor id program w = .ok (.error fault) w' := by
  simp only [attemptFor, cleanup, attempt_of_failed h]

/-- Whoever is stuck stays so, also after letting go of the transaction. -/
theorem attemptFor_of_stuck {program : Program ε α} (id : TxnId)
    (h : program w = .error .stuck w') :
    attemptFor id program w = .error .stuck { w' with engine := (Engine.drop id).after w'.engine } := by
  have hattempt : attempt program w = .error .stuck w' := by simp only [attempt, h]
  simp only [attemptFor, cleanup, hattempt, lift_drop]

theorem giveUp_eq (id : TxnId) (fault : Error) (w : World ε) :
    giveUp (α := α) id fault w =
      .error (.failed fault) { w with engine := (Engine.drop id).after w.engine } :=
  (bind_of_ok (lift_drop id w)).trans rfl

/-- Abandoning aborts the transaction, which changes nothing if it has ended already. -/
theorem abandon_eq {id : TxnId} {t : Transaction} (held : w.engine.held.find? id = some t)
    (fault : Error) :
    abandon (α := α) id fault w = .error (.failed fault) { w with
      engine := (Engine.drop id).after ((Engine.abort id).after w.engine) } := by
  refine (bind_of_ok (lift_of_ok (Engine.transaction_of_held held))).trans ?_
  have habort := Engine.abort_eq held
  cases hstatus : t.status with
  | active =>
    rw [hstatus] at habort
    have hended : Engine.abort id w.engine = _ :=
      habort.trans (Engine.endAborted_eq held .byCaller)
    rw [if_pos (by simp [Transaction.isActive, hstatus]), Step.after_of_ok hended]
    exact (bind_of_ok (lift_of_ok hended)).trans (giveUp_eq id fault _)
  | committed v =>
    rw [hstatus] at habort
    rw [if_neg (by simp [Transaction.isActive, hstatus]), Step.after_of_error habort]
    exact giveUp_eq id fault w
  | aborted reason =>
    rw [hstatus] at habort
    rw [if_neg (by simp [Transaction.isActive, hstatus]), Step.after_of_ok habort]
    exact giveUp_eq id fault w

/-! ## Turns -/

/-- A turn of an atomic call as it begins: what the call has behind it, the transaction, and the
world in which the body is run. -/
structure Turn (ε : Type) where
  done : Attempts := {}
  id : TxnId
  world : World ε

/-- The first turn has a transaction that has just begun. -/
def Turn.first (w : World ε) : Turn ε where
  id := w.engine.store.nextTransaction
  world := { w with engine := Engine.begin.after w.engine }

namespace Atomic

variable (call : Atomic ε α) (limit : Option UInt32)

/-- What the body makes of its turn. -/
abbrev ran (turn : Turn ε) : EStateM.Result Exit (World ε) α :=
  call.body turn.done.runs turn.id turn.world

/-- The turn after a conflict, in which a new transaction takes the place of the old one. -/
def afterConflict (turn : Turn ε) (left : World ε) : Turn ε where
  done := { turn.done with runs := turn.done.runs + 1, conflicts := turn.done.conflicts + 1 }
  id := left.engine.store.nextTransaction
  world := { left with engine := (Engine.drop turn.id).after (Engine.begin.after left.engine) }

/-- The turn after a wait, in which the transaction has started over. -/
def afterWait (turn : Turn ε) (woken : World ε) : Turn ε where
  done := { turn.done with runs := turn.done.runs + 1 }
  id := turn.id
  world := woken

/-- The turn that follows: after a conflict that is not one too many, or after a wait. -/
def nextTurn (turn : Turn ε) : Option (Turn ε) :=
  match call.ran turn with
  | .ok _ left =>
    match Engine.commit turn.id left.engine with
    | .ok _ _ => none
    | .error fault engine =>
      if !fault.isRetryable || turn.done.exhausts limit then none
      else some (afterConflict turn { left with engine })
  | .error (.failed .retry) left =>
    match call.wait turn.id left with
    | .ok _ woken => some (afterWait turn woken)
    | .error _ _ => none
  | .error _ _ => none

/-- The turns that a call takes from one on, at most as many as there is fuel for. -/
def turnsFrom : (fuel : Nat) → Turn ε → List (Turn ε)
  | 0, _ => []
  | fuel + 1, turn =>
    turn :: match call.nextTurn limit turn with
      | none => []
      | some next => turnsFrom fuel next

/-- All turns of a call that is made in a world. -/
def turns (fuel : Nat) (w : World ε) : List (Turn ε) :=
  call.turnsFrom w.engine.store.config.maxConflictRetries fuel (.first w)

/-- How a turn leads to another one. -/
inductive GoesOn (turn : Turn ε) : Turn ε → Prop
  | conflicted {x : α} {left : World ε} {fault : Error} {engine : Engine}
      (ran : call.ran turn = .ok x left) (failed : Engine.commit turn.id left.engine = .error fault engine)
      (retryable : fault.isRetryable = true) (room : turn.done.exhausts limit = false) :
      GoesOn turn (afterConflict turn { left with engine })
  | waited {left woken : World ε} (ran : call.ran turn = .error (.failed .retry) left)
      (waited : call.wait turn.id left = .ok () woken) :
      GoesOn turn (afterWait turn woken)

/-- How a turn ends the call. -/
inductive Ends (turn : Turn ε) : EStateM.Result Exit (World ε) α → Prop
  | returned {x : α} {left : World ε} {v : Version} {engine : Engine}
      (ran : call.ran turn = .ok x left) (committed : Engine.commit turn.id left.engine = .ok v engine) :
      Ends turn (.ok x { left with engine := (Engine.drop turn.id).after engine })
  | refused {x : α} {left : World ε} {fault : Error} {engine : Engine}
      (ran : call.ran turn = .ok x left) (failed : Engine.commit turn.id left.engine = .error fault engine)
      (final : fault.isRetryable = false ∨ turn.done.exhausts limit = true) :
      Ends turn (.error (.failed fault) { left with engine := (Engine.drop turn.id).after engine })
  | failed {fault : Error} {left : World ε} (ran : call.ran turn = .error (.failed fault) left)
      (final : fault ≠ .retry) : Ends turn (abandon turn.id fault left)
  | unwoken {fault : Error} {left waiting : World ε} (ran : call.ran turn = .error (.failed .retry) left)
      (lost : call.wait turn.id left = .error (.failed fault) waiting) :
      Ends turn (abandon turn.id fault waiting)
  | stuck (left : World ε) : Ends turn (.error .stuck left)

end Atomic

variable (call : Atomic ε α) (limit : Option UInt32)

/-- A turn leads to the next one with whatever fuel is left, or it ends the call. -/
theorem attempts_cases (fuel : Nat) (turn : Turn ε) :
    (∃ next, call.nextTurn limit turn = some next ∧ call.GoesOn limit turn next ∧
      attempts call limit (fuel + 1) turn.done turn.id turn.world =
        attempts call limit fuel next.done next.id next.world) ∨
    call.nextTurn limit turn = none ∧
      call.Ends limit turn (attempts call limit (fuel + 1) turn.done turn.id turn.world) := by
  obtain ⟨n, id, w⟩ := turn
  dsimp only
  cases hran : call.body n.runs id w with
  | ok x left =>
    have hbody := attemptFor_of_ok id hran
    cases hcommit : Engine.commit id left.engine with
    | ok v engine =>
      have hattempt := attempt_of_ok (lift_of_ok hcommit)
      have hrun : attempts call limit (fuel + 1) n id w =
          .ok x { left with engine := (Engine.drop id).after engine } :=
        (bind_of_ok hbody).trans ((bind_of_ok hattempt).trans ((bind_of_ok (lift_drop id _)).trans rfl))
      rw [hrun]
      exact .inr ⟨by simp only [Atomic.nextTurn, Atomic.ran, hran, hcommit], .returned hran hcommit⟩
    | error fault engine =>
      have hattempt := attempt_of_failed (lift_of_error hcommit)
      cases hfinal : (!fault.isRetryable || n.exhausts limit) with
      | true =>
        have hrun : attempts call limit (fuel + 1) n id w =
            .error (.failed fault) { left with engine := (Engine.drop id).after engine } := by
          refine (bind_of_ok hbody).trans ((bind_of_ok hattempt).trans ?_)
          simp only [hfinal, if_true]
          exact giveUp_eq id fault _
        rw [hrun]
        refine .inr ⟨by simp only [Atomic.nextTurn, Atomic.ran, hran, hcommit, hfinal, if_true],
          .refused hran hcommit ?_⟩
        simpa using hfinal
      | false =>
        obtain ⟨hretryable, hroom⟩ : fault.isRetryable = true ∧ n.exhausts limit = false := by
          simpa using hfinal
        refine .inl ⟨Atomic.afterConflict ⟨n, id, w⟩ { left with engine },
          by simp [Atomic.nextTurn, Atomic.ran, hran, hcommit, hfinal],
          .conflicted hran hcommit hretryable hroom, ?_⟩
        refine (bind_of_ok hbody).trans ((bind_of_ok hattempt).trans ?_)
        simp only [hfinal, Bool.false_eq_true, if_false]
        exact (bind_of_ok (lift_begin _)).trans (bind_of_ok (lift_drop id _))
  | error exit left =>
    cases exit with
    | stuck =>
      have hrun : attempts call limit (fuel + 1) n id w =
          .error .stuck { left with engine := (Engine.drop id).after left.engine } :=
        bind_of_error (attemptFor_of_stuck id hran)
      rw [hrun]
      exact .inr ⟨by simp only [Atomic.nextTurn, Atomic.ran, hran], .stuck _⟩
    | failed fault =>
      have hbody := attemptFor_of_failed id hran
      by_cases hretry : fault = .retry
      · subst hretry
        cases hwait : call.wait id left with
        | ok u woken =>
          exact .inl ⟨Atomic.afterWait ⟨n, id, w⟩ woken,
            by simp only [Atomic.nextTurn, Atomic.ran, hran, hwait], .waited hran hwait,
            (bind_of_ok hbody).trans (bind_of_ok (attemptFor_of_ok id hwait))⟩
        | error exit waiting =>
          refine .inr ⟨by simp only [Atomic.nextTurn, Atomic.ran, hran, hwait], ?_⟩
          cases exit with
          | stuck =>
            have hrun : attempts call limit (fuel + 1) n id w =
                .error .stuck { waiting with engine := (Engine.drop id).after waiting.engine } :=
              (bind_of_ok hbody).trans (bind_of_error (attemptFor_of_stuck id hwait))
            rw [hrun]
            exact .stuck _
          | failed fault =>
            have hrun : attempts call limit (fuel + 1) n id w = abandon id fault waiting :=
              (bind_of_ok hbody).trans (bind_of_ok (attemptFor_of_failed id hwait))
            rw [hrun]
            exact .unwoken hran hwait
      · have hrun : attempts call limit (fuel + 1) n id w = abandon id fault left := by
          refine (bind_of_ok hbody).trans ?_
          cases fault with
          | retry => exact absurd rfl hretry
          | _ => rfl
        have hlast : call.nextTurn limit ⟨n, id, w⟩ = none := by
          simp only [Atomic.nextTurn, Atomic.ran, hran]
          cases fault with
          | retry => exact absurd rfl hretry
          | _ => rfl
        rw [hrun]
        exact .inr ⟨hlast, .failed hran hretry⟩

/-- Abandoning is no way to return. -/
theorem abandon_fails (id : TxnId) (fault : Error) (w : World ε) :
    ∃ exit left, abandon (α := α) id fault w = .error exit left := by
  cases hheld : w.engine.held.find? id with
  | none => exact ⟨_, _, bind_of_error (lift_of_error (Engine.transaction_of_absent hheld))⟩
  | some t => exact ⟨_, _, abandon_eq hheld fault⟩

/-- A call returns by a commit that succeeds. -/
theorem Atomic.Ends.returned_of_ok {turn : Turn ε} {x : α} {after : World ε}
    (ends : call.Ends limit turn (.ok x after)) : ∃ left v engine,
      call.ran turn = .ok x left ∧ Engine.commit turn.id left.engine = .ok v engine ∧
      after = { left with engine := (Engine.drop turn.id).after engine } := by
  generalize hresult : EStateM.Result.ok x after = result at ends
  cases ends with
  | returned ran committed =>
    cases hresult
    exact ⟨_, _, _, ran, committed, rfl⟩
  | refused ran failed final => cases hresult
  | @failed fault left ran final | @unwoken fault _ left ran lost =>
    obtain ⟨exit, after', habandon⟩ := abandon_fails turn.id fault left (α := α)
    rw [habandon] at hresult
    cases hresult
  | stuck => cases hresult

/-- A call begins a transaction and takes its turns. -/
theorem atomically_eq (fuel : Nat) (w : World ε) :
    atomically call fuel w =
      attempts call w.engine.store.config.maxConflictRetries fuel (Turn.first w).done
        (Turn.first w).id (Turn.first w).world :=
  (bind_of_ok rfl).trans (bind_of_ok (lift_begin w))

end Program

end TransactionalHeap
