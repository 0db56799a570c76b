import TransactionalHeap.Proofs.Engine.Presence
import TransactionalHeap.Proofs.Program.Turns

/-!
# Programs as runs of actions

A world is a session in which a program goes on while some transactions are inside calls. Which ones
these are is told by the state that the program keeps, so a commit may begin in one part of a program
and end in a later one. What the program does to the session is a run of actions (`Program.Acts`):
every operation of the engine is one, or a few, and a chain of programs is the runs of its parts one
after the other.
-/
namespace TransactionalHeap

variable [Transactables]

namespace Session

variable {s : Session} {id : TxnId}

/-- The whole commit of a transaction that is in no call. -/
theorem run_commit (free : s.calls.find? id = none) :
    s.run [.publish id, .conclude id] = s.onEngine (Engine.commit id) := by
  have hcalls := SortedMap.contains_eq_false_iff.mpr free
  have hidle : ∀ engine : Engine, step { s with engine } (.conclude id) = { s with engine } := by
    intro engine
    simp only [step, free]
  change (s.step (.publish id)).step (.conclude id) = s.onEngine (Engine.commit id)
  cases hbegin : Engine.beginCommit id s.engine with
  | error fault engine =>
    have hcommit : Engine.commit id s.engine = .error fault engine := bind_of_error hbegin
    have hpublish : s.step (.publish id) = { s with engine } := by
      simp only [step, unlessCalling_of_free hcalls, hbegin]
    rw [hpublish, hidle, onEngine, Step.after_of_error hcommit]
  | ok stage engine =>
    cases stage with
    | settled v =>
      have hcommit : Engine.commit id s.engine = .ok v engine := bind_of_ok hbegin
      have hpublish : s.step (.publish id) = { s with engine } := by
        simp only [step, unlessCalling_of_free hcalls, hbegin]
      rw [hpublish, hidle, onEngine, Step.after_of_ok hcommit]
    | published p =>
      have hcommit : Engine.commit id s.engine = Engine.endCommit id p engine := bind_of_ok hbegin
      have hpublish : s.step (.publish id) =
          { engine, calls := s.calls.insert id (.committing p) } := by
        simp only [step, unlessCalling_of_free hcalls, hbegin]
      have hafter : (Engine.commit id).after s.engine = (Engine.endCommit id p).after engine := by
        simp only [Step.after, Step.result, EStateM.run, hcommit]
      rw [hpublish, onEngine, hafter]
      simp only [step, SortedMap.find?_insert_self, SortedMap.erase_insert free]

/-- A commit that publishes succeeds. -/
theorem commit_of_published {T : Committed} (sound : s.core.Sound fun _ => True)
    (published : s.published? (.publish id) = some T) :
    ∃ v engine, Engine.commit id s.engine = .ok v engine := by
  obtain ⟨hid, held⟩ := (moves sound (.publish id)).held_of_published published
  cases hcalls : s.calls.contains id with
  | true => simp [published?, hcalls] at published
  | false =>
    cases hbegin : Engine.beginCommit id s.engine with
    | error fault engine => simp [published?, hcalls, hbegin] at published
    | ok stage engine =>
      cases stage with
      | settled v => simp [published?, hcalls, hbegin] at published
      | published p =>
        have hpublish : s.step (.publish id) =
            { engine, calls := s.calls.insert id (.committing p) } := by
          simp only [step, unlessCalling_of_free hcalls, hbegin]
        rw [← Action.publish.inj hid] at held
        obtain ⟨t, held'⟩ := (moves sound (.publish id)).held_of_held (by simp) held
        rw [hpublish] at held'
        exact ⟨_, _, (bind_of_ok hbegin).trans (Engine.endCommit_eq (t := t) held' p)⟩

/-- A commit that fails publishes nothing. -/
theorem commits_of_failed {fault : Error} {engine : Engine} (sound : s.core.Sound fun _ => True)
    (failed : Engine.commit id s.engine = .error fault engine) :
    commits [.publish id, .conclude id] s = [] := by
  have hsilent : s.published? (.publish id) = none := by
    cases hpublished : s.published? (.publish id) with
    | none => rfl
    | some T =>
      obtain ⟨v, engine', hcommit⟩ := commit_of_published sound hpublished
      rw [hcommit] at failed
      cases failed
  simp only [commits, hsilent]
  rfl

end Session

/-- The session that a world is in, where its state tells which transactions are inside calls. -/
def World.session {ε : Type} (w : World ε) (calls : ε → SortedMap TxnId InCall) : Session :=
  ⟨w.engine, calls w.env⟩

namespace Program

variable {ε α β : Type} {w left : World ε} {calls : ε → SortedMap TxnId InCall} {id : TxnId}
  {orderly : List Action → Prop}

/-- The world in which a program has ended, with a result or by an error. One that is stuck has not
ended. -/
inductive EndsIn : EStateM.Result Exit (World ε) α → World ε → Prop
  | returned (a : α) (left : World ε) : EndsIn (.ok a left) left
  | failed (fault : Error) (left : World ε) : EndsIn (.error (.failed fault) left) left

theorem EndsIn.of_ok {result : EStateM.Result Exit (World ε) α} {a : α} {left : World ε}
    (ran : result = .ok a left) : EndsIn result left := by
  rw [ran]
  exact .returned a left

theorem EndsIn.of_failed {result : EStateM.Result Exit (World ε) α} {fault : Error} {left : World ε}
    (ran : result = .error (.failed fault) left) : EndsIn result left := by
  rw [ran]
  exact .failed fault left

/-- Whatever comes of the program, what it has done is an orderly run of actions. -/
def Acts (orderly : List Action → Prop) (calls : ε → SortedMap TxnId InCall)
    (program : Program ε α) (w : World ε) : Prop :=
  ∀ left, EndsIn (program w) left →
    ∃ actions, orderly actions ∧ (w.session calls).run actions = left.session calls

/-- Acting leaves a sound session with no fewer numbers used. -/
theorem Acts.sound {program : Program ε α} (acts : program.Acts orderly calls w)
    (sound : (w.session calls).core.Sound fun _ => True) (ends : EndsIn (program w) left) :
    (left.session calls).core.Sound (fun _ => True) ∧
      w.engine.store.nextTransaction ≤ left.engine.store.nextTransaction := by
  obtain ⟨actions, -, hrun⟩ := acts left ends
  have hsound := Session.sound_run_any sound actions
  have hgrown := Session.next_le_run sound actions
  rw [hrun] at hsound hgrown
  exact ⟨hsound, hgrown⟩

theorem acts_pure (none : orderly []) (a : α) : Acts orderly calls (pure a : Program ε α) w := by
  rintro left ⟨⟩
  exact ⟨[], none, rfl⟩

theorem acts_fail (none : orderly []) (fault : Error) :
    Acts orderly calls (fail fault : Program ε α) w := by
  rintro left ⟨⟩
  exact ⟨[], none, rfl⟩

theorem EndsIn.eq_of_lift {step : Step Engine α} (ends : EndsIn (lift step w) left) :
    left = { w with engine := step.after w.engine } := by
  cases hstep : step w.engine with
  | ok a engine =>
    rw [lift_of_ok hstep] at ends
    rw [Step.after_of_ok hstep]
    cases ends
    rfl
  | error fault engine =>
    rw [lift_of_error hstep] at ends
    rw [Step.after_of_error hstep]
    cases ends
    rfl

/-- An operation of the engine that amounts to some actions. -/
theorem acts_lift {step : Step Engine α} {actions : List Action} (inOrder : orderly actions)
    (run : (w.session calls).run actions = (w.session calls).onEngine step) :
    Acts orderly calls (lift step : Program ε α) w := by
  intro left ends
  rw [ends.eq_of_lift]
  exact ⟨actions, inOrder, run⟩

/-- An operation of a transaction that is in no call. -/
theorem acts_perform (free : (calls w.env).find? id = none) (op : Op) (inOrder : orderly [.perform id op]) :
    Acts orderly calls (lift (Engine.on id op.run) : Program ε Unit) w :=
  acts_lift inOrder
    (Session.unlessCalling_of_free (SortedMap.contains_eq_false_iff.mpr free)
      (Session.onEngine (Engine.on id op.run)))

theorem attempt_cases (program : Program ε α) (w : World ε) :
    (∃ result left, attempt program w = .ok result left ∧ EndsIn (program w) left) ∨
      ∃ left, attempt program w = .error .stuck left := by
  cases hran : program w with
  | ok a left => exact .inl ⟨_, left, attempt_of_ok hran, .returned a left⟩
  | error exit left =>
    cases exit with
    | failed fault => exact .inl ⟨_, left, attempt_of_failed hran, .failed fault left⟩
    | stuck => exact .inr ⟨left, by simp only [attempt, hran]⟩

/-- Looking at the result does not count. -/
theorem Acts.attempt {program : Program ε α} (acts : program.Acts orderly calls w) :
    (attempt program).Acts orderly calls w := by
  intro left ends
  rcases attempt_cases program w with ⟨result, left', hran, hends⟩ | ⟨left', hstuck⟩
  · rw [hran] at ends
    cases ends
    exact acts left hends
  · rw [hstuck] at ends
    cases ends

/-- A chain of programs acts as one does after the other. -/
theorem Acts.bind {first : Program ε α} {next : α → Program ε β}
    (append : ∀ xs ys, orderly xs → orderly ys → orderly (xs ++ ys))
    (hfirst : first.Acts orderly calls w)
    (hnext : ∀ a left, first w = .ok a left → (next a).Acts orderly calls left) :
    (first >>= next).Acts orderly calls w := by
  intro left ends
  cases hran : first w with
  | ok a between =>
    rw [bind_of_ok hran] at ends
    obtain ⟨xs, hxs, hrun⟩ := hfirst between (.of_ok hran)
    obtain ⟨ys, hys, hrun'⟩ := hnext a between hran left ends
    exact ⟨xs ++ ys, append xs ys hxs hys, by rw [Session.run_append, hrun, hrun']⟩
  | error exit between =>
    rw [bind_of_error hran] at ends
    cases ends
    exact hfirst left (.of_failed hran)

end Program

end TransactionalHeap
