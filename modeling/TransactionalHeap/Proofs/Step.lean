import TransactionalHeap.Error

/-!
# Running steps

How a chain of steps runs, given how its first step ends, and the state that a step leaves whichever
way it ends.
-/
namespace TransactionalHeap

section Chain

variable {ε σ α β : Type} {first : EStateM ε σ α} {next : α → EStateM ε σ β} {s s' : σ}

theorem bind_of_ok {a : α} (h : first s = .ok a s') : (first >>= next) s = next a s' := by
  change EStateM.bind first next s = _
  rw [EStateM.bind, h]

theorem bind_of_error {e : ε} (h : first s = .error e s') : (first >>= next) s = .error e s' := by
  change EStateM.bind first next s = _
  rw [EStateM.bind, h]

/-- A chain of steps succeeds only if the first step does and the second goes on from there. -/
theorem ok_of_bind {b : β} (h : (first >>= next) s = .ok b s') :
    ∃ a between, first s = .ok a between ∧ next a between = .ok b s' := by
  cases hfirst : first s with
  | ok a between => exact ⟨a, between, rfl, by rwa [bind_of_ok hfirst] at h⟩
  | error e between =>
    rw [bind_of_error hfirst] at h
    cases h

/-- A chain of steps fails where its first step does, or where the second does from there on. -/
theorem error_of_bind {e : ε} (h : (first >>= next) s = .error e s') :
    first s = .error e s' ∨ ∃ a between, first s = .ok a between ∧ next a between = .error e s' := by
  cases hfirst : first s with
  | ok a between => exact .inr ⟨a, between, rfl, by rwa [bind_of_ok hfirst] at h⟩
  | error e' between =>
    rw [bind_of_error hfirst] at h
    cases h
    exact .inl rfl

/-- Looking at the state is no reason to fail. -/
theorem error_of_get {rest : σ → EStateM ε σ α} {e : ε} (h : (get >>= rest) s = .error e s') :
    rest s s = .error e s' := h

/-- Nor is leaving a result aside. -/
theorem error_of_discard {e : ε} (h : (discard first : EStateM ε σ Unit) s = .error e s') :
    first s = .error e s' :=
  (error_of_bind h).resolve_right fun ⟨_, _, _, hpure⟩ => by cases hpure

end Chain

section Catch

variable {σ α : Type} {first : Step σ α} {handle : Error → Step σ α} {s s' : σ}

theorem catch_of_ok {a : α} (h : first s = .ok a s') : (tryCatch first handle) s = .ok a s' := by
  change EStateM.tryCatch first handle s = _
  delta EStateM.tryCatch
  simp only [h]

/-- What a step changed before it failed stays changed. -/
theorem catch_of_error {e : Error} (h : first s = .error e s') :
    (tryCatch first handle) s = handle e s' := by
  change EStateM.tryCatch first handle s = _
  delta EStateM.tryCatch
  simp only [h]
  rfl

end Catch

theorem Except.exists_of_bind_eq_ok {ε α β : Type} {first : Except ε α} {next : α → Except ε β}
    {b : β} (h : first.bind next = .ok b) : ∃ a, first = .ok a ∧ next a = .ok b := by
  cases first with
  | ok a => exact ⟨a, rfl, h⟩
  | error e => cases h

namespace Step

variable {σ α : Type}

/-- The state that a step leaves, also where it fails. -/
def after (step : Step σ α) (s : σ) : σ := (step.result s).2

variable {step : Step σ α} {s s' : σ}

theorem after_of_ok {a : α} (h : step s = .ok a s') : step.after s = s' := by
  simp only [after, result, EStateM.run, h]

theorem after_of_error {e : Error} (h : step s = .error e s') : step.after s = s' := by
  simp only [after, result, EStateM.run, h]

theorem result_of_ok {a : α} (h : step s = .ok a s') : (step.result s).1 = .ok a := by
  simp only [result, EStateM.run, h]

theorem result_of_error {e : Error} (h : step s = .error e s') : (step.result s).1 = .error e := by
  simp only [result, EStateM.run, h]

theorem result_eq_of_ok {a : α} (h : step s = .ok a s') : step.result s = (.ok a, s') := by
  simp only [result, EStateM.run, h]

theorem result_eq_of_error {e : Error} (h : step s = .error e s') :
    step.result s = (.error e, s') := by
  simp only [result, EStateM.run, h]

/-- A chain of steps goes on where its first step has succeeded. -/
theorem after_bind_of_ok {β : Type} {next : α → Step σ β} {a : α} (h : step s = .ok a s') :
    Step.after (step >>= next) s = (next a).after s' := by
  simp only [after, result, EStateM.run, bind_of_ok h]

/-- Leaving the result aside changes nothing of the state. -/
theorem after_discard (step : Step σ α) (s : σ) : after (discard step) s = step.after s := by
  cases h : step s with
  | ok a s' =>
    have hchain : (discard step : Step σ Unit) s = .ok () s' := bind_of_ok h
    rw [after_of_ok hchain, after_of_ok h]
  | error e s' =>
    have hchain : (discard step : Step σ Unit) s = .error e s' := bind_of_error h
    rw [after_of_error hchain, after_of_error h]

/-- Whichever way the step ends, the property holds of the state afterwards if it did before. -/
def Keeps (P : σ → Prop) (step : Step σ α) : Prop := ∀ s, P s → P (step.after s)

namespace Keeps

variable {P : σ → Prop} {β : Type}

theorem bind {first : Step σ α} {next : α → Step σ β} (hfirst : Keeps P first)
    (hnext : ∀ a, Keeps P (next a)) : Keeps P (first >>= next) := by
  intro s holds
  have hbetween := hfirst s holds
  cases hrun : first s with
  | ok a between =>
    rw [after_of_ok hrun] at hbetween
    rw [after_bind_of_ok hrun]
    exact hnext a between hbetween
  | error fault between =>
    rw [after_of_error hrun] at hbetween
    rwa [after_of_error (bind_of_error hrun)]

/-- A step that leaves every state as it is keeps whatever holds. -/
theorem still (hstill : ∀ s, step.after s = s) : Keeps P step := by
  intro s holds
  rwa [hstill]

theorem pure (a : α) : Keeps P (Pure.pure a : Step σ α) := still fun _ => rfl

theorem fail (fault : Error) : Keeps P (throw fault : Step σ α) := still fun _ => rfl

theorem get : Keeps P (MonadState.get : Step σ σ) := still fun _ => rfl

theorem ofExcept (r : Except Error α) : Keeps P (Step.ofExcept r : Step σ α) := by
  cases r with
  | ok a => exact pure a
  | error fault => exact fail fault

theorem discard (h : Keeps P step) : Keeps P (Functor.discard step) := h.bind fun _ => pure _

end Keeps

end Step

end TransactionalHeap
