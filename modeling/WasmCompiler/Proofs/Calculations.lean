import WasmCompiler.Proofs.Runs

/-! # Calculations on operands

Computations of the machine look at the topmost operands only. Apart from the bound on the number of
operands, what they do is a calculation on the list of operands, and a machine that comes to
computations in its code goes through them one by one.

* **`calculate`**, **`calculateAll`** — what computations make of operands;
* **`ComesTo`**, **`Performs`** — an action does what a calculation says;
* **`run_calculates`** — so does a machine that comes to computations in its code. -/

namespace WasmCompiler.Machine

open Bytecode (Assembly Op)
open Stateful
open Execution

/-! ## Calculations -/

/-- What a computation on two values makes of operands, the topmost first. -/
def replaceTwo (computation : Value → Value → Except Trap Value) :
    List Value → Except Trap (List Value)
  | right :: left :: rest => (computation left right).map (· :: rest)
  | _ => .error .stackUnderflow

/-- What a computation on one value makes of operands, the topmost first. -/
def replaceOne (computation : Value → Except Trap Value) : List Value → Except Trap (List Value)
  | value :: rest => (computation value).map (· :: rest)
  | [] => .error .stackUnderflow

/-- **What a computation makes of operands**, the topmost first, if there may be any number of them.
Other operations are left out. -/
def calculate : Op Nat → List Value → Except Trap (List Value)
  | .const value => fun operands => .ok (value :: operands)
  | .compare op => replaceTwo (compare op)
  | .arith .neg => replaceOne fun value => .ok (negate value)
  | .arith op => replaceTwo (arith op)
  | .convert op => replaceOne (convert op)
  | .intrinsic op => if isBinary op then replaceTwo (binary op) else replaceOne (unary op)
  | _ => .ok

/-- **What computations one after the other make of operands.** -/
def calculateAll : List (Op Nat) → List Value → Except Trap (List Value)
  | [], operands => .ok operands
  | op :: ops, operands => calculate op operands >>= calculateAll ops

/-- How many more operands than before there may be after a computation. -/
def growth : Op Nat → Nat
  | .const _ => 1
  | _ => 0

/-- How many more operands than before there may be on the way through computations. -/
def growthAll : List (Op Nat) → Nat
  | [] => 0
  | op :: ops => growth op + growthAll ops

/-! ## Actions -/

/-- **Whether an action comes to the result of a calculation** on the operands and changes nothing
else, unless it exhausts the bound on their number. There are no more of them than the limit, and
the bound is exhausted only below it. -/
def ComesTo (bounds : Bounds) (limit : Nat) (action : Execution Unit) (running : Running)
    (result : Except Trap (List Value)) : Prop :=
  bounds.maxValueStack < limit ∧
      (∃ depth later, action running = .error (.callStackExhausted depth) later) ∨
    match result with
    | .ok operands =>
        operands.length ≤ limit ∧ action running = .ok () (running.withValues operands)
    | .error trap => ∃ later, action running = .error trap later ∧ later.store = running.store

/-- **Whether an action does what a calculation says**, wherever it starts. There are at most
`growth` more operands than before. -/
def Performs (bounds : Bounds) (growth : Nat) (action : Execution Unit)
    (calculation : List Value → Except Trap (List Value)) : Prop :=
  ∀ running, ComesTo bounds (running.height + growth) action running (calculation running.values)

variable {bounds : Bounds}

/-- Adding an operand takes room for one more. -/
theorem performs_push (bounds : Bounds) (value : Value) :
    Performs bounds 1 (push bounds value) fun operands => .ok (value :: operands) := by
  intro running
  by_cases room : running.height < bounds.maxValueStack
  · have length : (value :: running.values).length = running.height + 1 := by
      rw [List.length_cons, Running.height_eq]
    exact .inr ⟨Nat.le_of_eq length, (push_apply bounds value running).trans (if_pos room)⟩
  · have exhausted := (push_apply bounds value running).trans (if_neg room)
    exact .inl ⟨Nat.lt_succ_of_le (Nat.le_of_not_lt room), _, _, exhausted⟩

/-- An action that takes operands and goes on comes to what the rest of it comes to. -/
theorem ComesTo.after {limit : Nat} {action onward : Execution Unit} {running : Running}
    {rest : List Value} {result : Except Trap (List Value)}
    (comes : ComesTo bounds limit onward (running.withValues rest) result)
    (taken : action running = onward (running.withValues rest)) :
    ComesTo bounds limit action running result := by
  rcases comes with ⟨exceeds, depth, later, exhausted⟩ | settled
  · exact .inl ⟨exceeds, depth, later, taken.trans exhausted⟩
  · cases result with
    | ok operands => exact .inr ⟨settled.1, taken.trans settled.2⟩
    | error trap =>
        obtain ⟨later, fails, same⟩ := settled
        exact .inr ⟨later, taken.trans fails, same⟩

/-- The result of a computation takes the place of its operands. -/
theorem comesTo_push (bounds : Bounds) (result : Except Trap Value) (running : Running)
    {rest : List Value} (fewer : rest.length + 1 ≤ running.height) :
    ComesTo bounds running.height (Execution.ofExcept result >>= push bounds)
      (running.withValues rest) (result.map (· :: rest)) := by
  cases result with
  | ok value =>
      rcases performs_push bounds value (running.withValues rest) with
        ⟨exceeds, exhausted⟩ | ⟨length, pushed⟩
      · rw [Running.height_withValues] at exceeds
        exact .inl ⟨Nat.lt_of_lt_of_le exceeds fewer, exhausted⟩
      · exact .inr ⟨fewer, pushed⟩
  | error trap => exact .inr ⟨_, rfl, rfl⟩

/-- A computation on one operand puts its result in the place of the operand. -/
theorem performs_applyUnary (bounds : Bounds) (computation : Value → Except Trap Value) :
    Performs bounds 0 (applyUnary bounds computation) (replaceOne computation) := by
  intro running
  cases operands : running.values with
  | nil =>
      refine .inr ⟨running, ?_, rfl⟩
      rw [applyUnary, bind_of_error _ (by rw [pop_apply, operands])]
  | cons value rest =>
      have popped : pop running = .ok value (running.withValues rest) := by
        rw [pop_apply, operands]
      have fewer : rest.length + 1 = running.height := by
        rw [Running.height_eq, operands, List.length_cons]
      refine (comesTo_push bounds (computation value) running (Nat.le_of_eq fewer)).after ?_
      rw [applyUnary, bind_of_ok _ popped]

/-- A computation on two operands puts its result in the place of both. -/
theorem performs_applyBinary (bounds : Bounds)
    (computation : Value → Value → Except Trap Value) :
    Performs bounds 0 (applyBinary bounds computation) (replaceTwo computation) := by
  intro running
  -- With fewer than two operands it fails; otherwise two are replaced by one.
  cases operands : running.values with
  | nil =>
      refine .inr ⟨running, ?_, rfl⟩
      rw [applyBinary, bind_of_error _ (by rw [pop_apply, operands])]
  | cons right rest =>
      have popped : pop running = .ok right (running.withValues rest) := by
        rw [pop_apply, operands]
      cases rest with
      | nil =>
          refine .inr ⟨running.withValues [], ?_, rfl⟩
          rw [applyBinary, bind_of_ok _ popped, bind_of_error _ (pop_apply _)]
      | cons left rest =>
          have fewer : rest.length + 1 ≤ running.height := by
            rw [Running.height_eq, operands]
            exact Nat.le_succ _
          refine (comesTo_push bounds (computation left right) running fewer).after ?_
          rw [applyBinary, bind_of_ok _ popped, bind_of_ok _ (pop_apply _)]
          rfl

/-- **Computations do what their calculations say.** -/
theorem performs_effect (bounds : Bounds) {op : Op Nat} (computes : op.isComputation = true) :
    Performs bounds (growth op) (effect bounds op) (calculate op) := by
  cases op with
  | const value => exact performs_push bounds value
  | compare op => exact performs_applyBinary bounds (compare op)
  | arith op =>
      cases op with
      | neg => exact performs_applyUnary bounds fun value => .ok (negate value)
      | _ => exact performs_applyBinary bounds (arith _)
  | convert op => exact performs_applyUnary bounds (convert op)
  | intrinsic op =>
      rw [effect, calculate]
      split
      · exact performs_applyBinary bounds (binary op)
      · exact performs_applyUnary bounds (unary op)
  | _ => cases computes

/-! ## Runs -/

variable {assembly : Assembly} {code : Array (Op Nat)} {callers : List Activation}

/-- **A machine that comes to computations in its code** goes through them as their calculations
say, and changes nothing but the operands, or traps and takes all activations off the count. It may
exhaust the bound on the number of operands, but not if there is room for those that the
computations add. -/
theorem run_calculates {ops : List (Op Nat)} {position : Nat} {running : Running}
    (computations : ∀ op ∈ ops, op.isComputation = true)
    (placed : ∀ index op, ops[index]? = some op → code[position + index]? = some op) :
    bounds.maxValueStack < running.height + growthAll ops ∧
        (∃ depth store, run assembly bounds ops.length ⟨running.at code position, callers⟩ =
          .trapped (.callStackExhausted depth) store) ∨
      run assembly bounds ops.length ⟨running.at code position, callers⟩ =
        match calculateAll ops running.values with
        | .ok operands =>
            .running ⟨(running.withValues operands).at code (position + ops.length), callers⟩
        | .error trap => .trapped trap (running.store.uncount (callers.length + 1)) := by
  induction ops generalizing position running with
  | nil =>
      refine .inr ?_
      show Progress.running ⟨running.at code position, callers⟩ =
        .running ⟨(running.withValues running.values).at code position, callers⟩
      rw [Running.withValues_values]
  | cons op ops opsInduction =>
      obtain ⟨here, others⟩ := List.forall_mem_cons.mp computations
      have found : code[position]? = some op := placed 0 op rfl
      have steps : step assembly bounds ⟨running.at code position, callers⟩ =
          arrive code (fun _ => position + 1) callers (effect bounds op running) :=
        step_straight found (Op.isStraight_of_isComputation here)
      rw [List.length_cons, run, calculateAll, growthAll]
      -- The first computation is one step, after which the others start one place further on.
      rcases performs_effect bounds here running with ⟨exceeds, depth, later, exhausted⟩ | performed
      · rw [exhausted, arrive, raise_eq] at steps
        rw [steps]
        exact .inl ⟨by omega, depth, _, rfl⟩
      · cases calculated : calculate op running.values with
        | error trap =>
            rw [calculated] at performed
            obtain ⟨later, fails, same⟩ := performed
            rw [fails, arrive, raise_eq, same] at steps
            rw [steps]
            exact .inr rfl
        | ok operands =>
            rw [calculated] at performed
            obtain ⟨length, succeeds⟩ := performed
            rw [succeeds] at steps
            rw [steps]
            have onward := @opsInduction (position + 1) (running.withValues operands) others
              fun index other found => by
                rw [Nat.add_assoc, Nat.add_comm 1]
                exact placed (index + 1) other found
            rw [Nat.add_assoc, Nat.add_comm 1, Running.height_withValues] at onward
            rcases onward with ⟨exceeds, exhausted⟩ | done
            · exact .inl ⟨by omega, exhausted⟩
            · exact .inr done

end WasmCompiler.Machine
