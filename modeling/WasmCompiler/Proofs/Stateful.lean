/-! # Stateful computations at a state

Decoding, emission and execution are computations with a state and an error. These lemmas say what
such a computation gives when it is applied to a state, one for each way of building it. -/

namespace WasmCompiler.Stateful

variable {ε σ α β : Type}

/-- Giving a value leaves the state. -/
theorem pure_apply (value : α) (state : σ) :
    (pure value : EStateM ε σ α) state = .ok value state := rfl

/-- Looking at the state gives it. -/
theorem get_apply (state : σ) : (get : EStateM ε σ σ) state = .ok state state := rfl

/-- Changing the state gives nothing. -/
theorem modify_apply (change : σ → σ) (state : σ) :
    (modify change : EStateM ε σ Unit) state = .ok () (change state) := rfl

/-- A sequence applied to a state goes on with what the first part leaves. -/
theorem bind_apply (first : EStateM ε σ α) (second : α → EStateM ε σ β) (state : σ) :
    (first >>= second) state =
      match first state with
      | .ok value later => second value later
      | .error error later => .error error later := rfl

/-- After a first part that succeeds, the second part runs. -/
theorem bind_of_ok {first : EStateM ε σ α} (second : α → EStateM ε σ β) {state later : σ}
    {value : α} (equation : first state = .ok value later) :
    (first >>= second) state = second value later := by
  rw [bind_apply, equation]

/-- After a first part that fails, the second part does not run. -/
theorem bind_of_error {first : EStateM ε σ α} (second : α → EStateM ε σ β) {state later : σ}
    {error : ε} (equation : first state = .error error later) :
    (first >>= second) state = .error error later := by
  rw [bind_apply, equation]

/-- A sequence succeeds exactly if both parts do. -/
theorem bind_eq_ok {first : EStateM ε σ α} {second : α → EStateM ε σ β} {state last : σ}
    {result : β} :
    (first >>= second) state = .ok result last ↔
      ∃ value later, first state = .ok value later ∧ second value later = .ok result last := by
  rw [bind_apply]
  cases equation : first state with
  | ok value later => simp [and_assoc]
  | error error later => simp

/-- A sequence fails if its first part does, or its second part after that. -/
theorem bind_eq_error {first : EStateM ε σ α} {second : α → EStateM ε σ β} {state last : σ}
    {error : ε} :
    (first >>= second) state = .error error last ↔ first state = .error error last ∨
      ∃ value later, first state = .ok value later ∧ second value later = .error error last := by
  rw [bind_apply]
  cases equation : first state with
  | ok value later => simp [and_assoc]
  | error error later => simp

end WasmCompiler.Stateful
