/-!
# Computations that can fail

A computation with a result has taken each of its steps and passed each of its checks. The lemmas
here take such a computation apart from its front: `simp only` with them turns the statement that
it has a result into the results of its steps.
-/
namespace TagWrap

variable {error other first second : Type}

/-- A computation has a result when its first step has one and the rest has one from there. -/
theorem bind_eq_ok {step : Except error first} {rest : first → Except error second}
    {result : second} :
    (step >>= rest) = .ok result ↔ ∃ value, step = .ok value ∧ rest value = .ok result := by
  cases step <;> simp [bind, Except.bind]

/-- A computation behind a step without a value has a result when the step succeeds and the rest
    has one. -/
theorem then_eq_ok {step : Except error Unit} {rest : Except error second} {result : second} :
    (step >>= fun _ => rest) = .ok result ↔ step = .ok () ∧ rest = .ok result := by
  cases step <;> simp [bind, Except.bind]

/-- A computation fails when its first step does or the rest does from there. -/
theorem bind_eq_error {step : Except error first} {rest : first → Except error second}
    {reason : error} :
    (step >>= rest) = .error reason ↔
      step = .error reason ∨ ∃ value, step = .ok value ∧ rest value = .error reason := by
  cases step <;> simp [bind, Except.bind]

/-- A computation behind a step without a value fails when the step does, or when the step succeeds
    and the rest fails. -/
theorem then_eq_error {step : Except error Unit} {rest : Except error second} {reason : error} :
    (step >>= fun _ => rest) = .error reason ↔
      step = .error reason ∨ step = .ok () ∧ rest = .error reason := by
  cases step <;> simp [bind, Except.bind]

/-- What is returned is the result. -/
theorem pure_eq_ok {value result : first} :
    (pure value : Except error first) = .ok result ↔ value = result := by
  simp [pure, Except.pure]

/-- Nothing is done behind an error. -/
theorem throw_then {reason : error} {rest : first → Except error second} :
    (throw reason >>= rest) = .error reason := rfl

/-- A computation behind a check has a result when the check passes and the rest has one. -/
theorem refuse_eq_ok {refused : Prop} [Decidable refused] {reason : error}
    {rest : Except error first} {result : first} :
    (if refused then .error reason else rest) = .ok result ↔ ¬ refused ∧ rest = .ok result := by
  by_cases failed : refused
  · simp [failed]
  · simp [failed]

/-- A computation behind a check fails for the reason of the check when that does not pass, and
    otherwise when the rest fails. -/
theorem refuse_eq_error {refused : Prop} [Decidable refused] {reason told : error}
    {rest : Except error first} :
    (if refused then .error reason else rest) = .error told ↔
      refused ∧ reason = told ∨ ¬ refused ∧ rest = .error told := by
  by_cases failed : refused
  · simp [failed]
  · simp [failed]

/-- A change of errors changes no result. -/
theorem mapError_eq_ok {change : error → other} {step : Except error first} {result : first} :
    step.mapError change = .ok result ↔ step = .ok result := by
  constructor
  · intro computed
    cases step <;> cases computed
    rfl
  · rintro rfl
    rfl

/-- A change of errors changes the reason of a failure. -/
theorem mapError_eq_error {change : error → other} {step : Except error first} {reason : other} :
    step.mapError change = .error reason ↔
      ∃ original, step = .error original ∧ change original = reason := by
  constructor
  · intro failed
    cases step <;> cases failed
    exact ⟨_, rfl, rfl⟩
  · rintro ⟨original, rfl, rfl⟩
    rfl

/-- A computation either has a result or fails. -/
theorem exists_error_iff {step : Except error first} :
    (∃ reason, step = .error reason) ↔ ¬ ∃ result, step = .ok result := by
  cases step <;> simp

end TagWrap
