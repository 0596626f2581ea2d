import WasmCompiler.Machine.Activation

/-! # Runs of the machine

The machine keeps a stack of activations and executes one operation at a time, so a run is the
repetition of one step. A run that does not end within a number of steps is told apart from one that
ends with a trap.

Each call counts its activation in the store while it runs and takes it off the count when it is
over, also if a trap ends it: a trap goes through all the activations that wait. -/

namespace WasmCompiler.Machine

open Bytecode (Assembly Function)

/-- A machine between two operations. -/
structure State where
  /-- The innermost activation and the store. -/
  running : Running
  /-- The activations that wait for it, innermost first. -/
  callers : List Activation

/-- What a step leads to. -/
inductive Progress where
  /-- The run goes on. -/
  | running (state : State)
  /-- The first function has returned. -/
  | finished (result : Option Value) (store : Store)
  /-- The run has trapped. -/
  | trapped (trap : Trap) (store : Store)

section

variable (assembly : Assembly) (bounds : Bounds)

/-- The activation of a function that is called where `depth` activations are counted. -/
def enter (function : Nat) (arguments : List Value) (depth : Nat) : Except Trap Activation :=
  match assembly.importedFunction? function with
  | some entry => .error (.unresolvedImport entry.moduleName entry.field)
  | none =>
      match assembly.function? function with
      | none => .error (.undefinedElement function)
      | some definition =>
          if depth < bounds.maxCallDepth then
            .ok
              { function := definition
                depth := depth + 1
                position := 0
                slots := (arguments ++ definition.locals.map Value.zero).toArray
                stack := .empty }
          else .error (.callStackExhausted depth)

/-- Passes a trap on to the callers, from the innermost one outward. The activation that traps is
taken off the count, and so is each of those that wait. -/
def raise (trap : Trap) (store : Store) : (callers : List Activation) → Progress
  | [] => .trapped trap store.countDown
  | _ :: callers => raise trap store.countDown callers

/-- Goes on in the caller after a function has returned. -/
def resume (result : Option Value) (store : Store) (caller : Activation)
    (callers : List Activation) : Progress :=
  match result with
  | none => .running ⟨⟨caller, store⟩, callers⟩
  | some value =>
      match Execution.push bounds value ⟨caller, store⟩ with
      | .ok _ running => .running ⟨running, callers⟩
      | .error trap running => raise trap running.store callers

/-- Does what the innermost activation has asked for, or passes on its trap. -/
def obey (callers : List Activation) : EStateM.Result Trap Running Signal → Progress
  | .error trap running => raise trap running.store callers
  | .ok .next running => .running ⟨running, callers⟩
  | .ok (.call function arguments) ⟨caller, store⟩ =>
      match enter assembly bounds function arguments store.depth with
      | .error trap => raise trap store callers
      | .ok activation => .running ⟨⟨activation, store.countUp⟩, caller :: callers⟩
  | .ok (.done result) ⟨_, store⟩ =>
      match callers with
      | [] => .finished result store.countDown
      | caller :: callers => resume bounds result store.countDown caller callers

/-- Executes one operation. -/
def step (state : State) : Progress :=
  obey assembly bounds state.callers (Execution.next assembly bounds state.running)

/-- What a run of at most `steps` operations leads to. -/
def run : (steps : Nat) → State → Progress
  | 0, state => .running state
  | steps + 1, state =>
      match step assembly bounds state with
      | .running state => run steps state
      | progress => progress

/-- What a call of a function from outside leads to, within a number of steps. -/
def call (steps : Nat) (function : Nat) (arguments : List Value) (store : Store) : Progress :=
  match enter assembly bounds function arguments store.depth with
  | .error trap => .trapped trap store
  | .ok activation => run assembly bounds steps ⟨⟨activation, store.countUp⟩, []⟩

end

end WasmCompiler.Machine
