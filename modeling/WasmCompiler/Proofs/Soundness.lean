import WasmCompiler.Proofs.Preservation
import WasmCompiler.Proofs.Safety

/-! # Soundness of evaluation

The evaluation of typed code never looks for an operand that is missing, nor finds one of another
type than it expects. The invariant is that operands have the types that the rules give them at each
place, from the innermost block down to the start of the function; it holds at the end of every
sequence, after every branch, and in every function that is called.

* **`Evaluation.Sound`** — an evaluation ends as it should or traps soundly;
* **`Ends`** — the operands at each way for code to end;
* **`Program.allBehave`** — typed code is evaluated soundly;
* **`Program.soundCalls`** — so are calls of typed functions. -/

namespace WasmCompiler

open Machine
open Machine.Execution

/-! ## Sound evaluations -/

namespace Evaluation

variable {α β : Type} {depth : Nat} {module : Module}

/-- **Whether an evaluation is sound**: what it ends with has a property, and it traps for no reason
of types, with globals of their types. -/
def Sound (module : Module) (meets : α → Running → Prop) : Evaluation α → Prop
  | .ended value running => meets value running
  | .trapped trap store => trap.isSound = true ∧ store.Fits module
  | .unfinished => True

/-- Evaluations one after the other are sound if each is. -/
theorem Sound.andThen {first : Evaluation α} {second : α → Running → Evaluation β}
    {meets : α → Running → Prop} {meetsNext : β → Running → Prop} (start : first.Sound module meets)
    (onward : ∀ value running, meets value running →
      (second value running).Sound module meetsNext) :
    (first.andThen second).Sound module meetsNext := by
  cases first with
  | ended value running => exact onward value running start
  | trapped trap store => exact start
  | unfinished => exact trivial

/-- A sound evaluation ends with whatever follows from its property. -/
theorem Sound.weaken {evaluation : Evaluation α} {meets less : α → Running → Prop}
    (sound : evaluation.Sound module meets)
    (implies : ∀ value running, meets value running → less value running) :
    evaluation.Sound module less := by
  cases evaluation with
  | ended value running => exact implies value running sound
  | trapped trap store => exact sound
  | unfinished => exact trivial

/-- A call is as sound as what it counts an activation for. -/
theorem Sound.countDown {evaluation : Evaluation α} {meets less : α → Running → Prop}
    (sound : evaluation.Sound module meets)
    (implies : ∀ value running, meets value running →
      less value { running with store := running.store.countDown }) :
    evaluation.countDown.Sound module less := by
  cases evaluation with
  | ended value running => exact implies value running sound
  | trapped trap store => exact sound
  | unfinished => exact trivial

/-- A safe action is evaluated soundly. -/
theorem sound_ofExecution {context : TypingContext} {takes leaves : List ValueType}
    {action : Execution α} {meets : α → Prop} (safe : Safe context takes action leaves meets)
    {running : Running} (fits : running.Fits context takes) :
    (ofExecution action running).Sound context.module fun value later =>
      meets value ∧ later.Fits context leaves := by
  have lands := safe running fits
  unfold ofExecution
  cases equation : action running with
  | ok value later =>
      rw [equation] at lands
      exact lands
  | error trap later =>
      rw [equation] at lands
      exact lands

end Evaluation

/-! ## The surroundings of code -/

/-- The blocks around some code, and the types of the operands that they were entered with. -/
structure Surroundings (depth : Nat) where
  /-- The types of the operands that a branch to a block carries. -/
  carried : Fin depth → List ValueType
  /-- The types of the operands that a block was entered with. -/
  beneath : Fin depth → List ValueType
  /-- The types of the operands from before the innermost block. -/
  below : List ValueType
  /-- The operands that a block was entered with are still there. -/
  nested : ∀ level, beneath level <:+ below

namespace Surroundings

variable {depth : Nat}

/-- The surroundings of the code of a function. -/
def outermost : Surroundings 0 where
  carried level := level.elim0
  beneath level := level.elim0
  below := []
  nested level := level.elim0

/-- The surroundings of the code of a block that is entered with operands of the types `stack` since
the block around it. -/
def inside (around : Surroundings depth) (types stack : List ValueType) :
    Surroundings (depth + 1) where
  carried := Fin.cases types around.carried
  beneath := Fin.cases (stack ++ around.below) around.beneath
  below := stack ++ around.below
  nested level := by
    cases level using Fin.cases with
    | zero => exact List.suffix_refl _
    | succ level => exact (around.nested level).trans (List.suffix_append _ _)

end Surroundings

/-- **Whether code ends as its types say**: with the operands of its goal, or with those that a
branch or a return carries on top of others. -/
def Ends (context : TypingContext) {depth : Nat} (around : Surroundings depth)
    (goal : List ValueType) : Exit depth → Running → Prop
  | .next, running => running.Fits context (goal ++ around.below)
  | .branch level, running => ∃ extra, around.beneath level <:+ extra ∧
      running.Fits context (around.carried level ++ extra)
  | .ret, running => ∃ extra, running.Fits context (context.results.reverse ++ extra)

/-- **Whether some code is evaluated soundly** wherever it satisfies the typing rules. -/
def Program.Behaves (program : Program) (bounds : Bounds) (fuel : Nat) (context : TypingContext)
    {depth : Nat} (code : Code depth) : Prop :=
  ∀ (around : Surroundings depth) (stack goal : List ValueType) (running : Running),
    code.Typed context around.carried stack goal → running.Fits context (stack ++ around.below) →
    (program.evaluate bounds fuel code running).Sound context.module (Ends context around goal)

/-- Whether all code of a program is evaluated soundly within some depth of loops and calls. -/
def Program.AllBehave (program : Program) (bounds : Bounds) (fuel : Nat) : Prop :=
  ∀ (context : TypingContext) (depth : Nat) (code : Code depth),
    context.module = program.module → program.Behaves bounds fuel context code

/-! ## Branches -/

namespace Machine.Running.Fits

variable {context : TypingContext} {running : Running}

/-- **A branch** leaves the operands that it carries on those that the block was entered with. -/
theorem cut {types extra entered : List ValueType} (fits : running.Fits context (types ++ extra))
    (still : entered <:+ extra) {base keep : Nat} (height : base = entered.length)
    (arity : keep = types.length) : (running.cut base keep).Fits context (types ++ entered) := by
  obtain ⟨front, rfl⟩ := still
  have count : running.values.length = types.length + (front.length + entered.length) := by
    rw [← List.length_map Value.type, fits.operands, List.length_append, List.length_append]
  have dropped : running.values.length - base = types.length + front.length := by omega
  have values : (running.cut base keep).values =
      running.values.take keep ++ running.values.drop (running.values.length - base) := rfl
  refine { fits with operands := ?_ }
  rw [values, List.map_append, List.map_take, List.map_drop, fits.operands, arity, dropped,
    List.take_left, ← List.append_assoc, ← List.length_append, List.drop_left]

end Machine.Running.Fits

/-- **The choice of a branch** takes one operand at most; a branch that is taken carries the others,
and a branch that is not leaves them. -/
theorem Jump.HasType.safe {context : TypingContext} {depth : Nat}
    {carried : Fin depth → List ValueType} {leap : Jump depth} {takes leaves : List ValueType}
    (typed : leap.HasType carried takes leaves) (rest : List ValueType) :
    ∃ moved, Safe context (takes ++ rest) leap.choose (moved ++ rest) fun chosen =>
      (∀ level, chosen = some level → carried level = moved) ∧
        (chosen = none → leap.isTransfer = false ∧ leaves = moved) := by
  cases typed with
  | always level =>
      refine ⟨carried level, safe_pure ⟨?_, fun absurd => by cases absurd⟩⟩
      intro chosen same
      cases same
      rfl
  | ifTrue level =>
      refine ⟨carried level, safe_popI32.bind fun condition _ =>
        safe_pure ⟨?_, fun _ => ⟨rfl, rfl⟩⟩⟩
      intro chosen same
      by_cases holds : condition ≠ 0
      · rw [if_pos holds] at same
        cases same
        rfl
      · rw [if_neg holds] at same
        cases same
  | @table levels fallback types same =>
      refine ⟨types, safe_popI32.bind fun selector _ =>
        safe_pure ⟨?_, fun absurd => by cases absurd⟩⟩
      intro chosen equation
      cases equation
      exact same _ (selected_mem levels fallback selector.toNat)

/-! ## Calls -/

section

variable {context : TypingContext} {rest : List ValueType}

/-- Arguments of the types of the parameters pass the check. -/
theorem safe_checkArguments {params : List ValueType} {arguments : List Value}
    (typed : arguments.map Value.type = params) :
    Safe context rest (checkArguments params arguments) rest fun _ => True := by
  induction arguments generalizing params with
  | nil =>
      subst typed
      exact safe_pure trivial
  | cons argument arguments argumentsInduction =>
      subst typed
      exact Safe.check rfl (argumentsInduction rfl)

/-- **Taking arguments of the types of the parameters.** -/
theorem safe_takeArguments (signature : Signature) :
    Safe context (signature.params.reverse ++ rest) (takeArguments signature) rest
      fun arguments => arguments.map Value.type = signature.params := by
  intro running fits
  have enough : ¬running.height < signature.params.length := by
    rw [fits.height_eq, List.length_append, List.length_reverse]
    omega
  have length := (List.length_reverse : signature.params.reverse.length = signature.params.length)
  have typed : (running.values.take signature.params.length).reverse.map Value.type =
      signature.params := by
    rw [List.map_reverse, List.map_take, fits.operands, ← length, List.take_left,
      List.reverse_reverse]
  have left := fits.withValues (running.values.drop signature.params.length)
  rw [List.map_drop, fits.operands, ← length, List.drop_left, length] at left
  rw [takeArguments_apply, if_neg enough]
  refine Safe.bind (safe_checkArguments typed) (fun _ _ => ?_) _ left
  exact safe_pure typed

/-- The function in a table slot. -/
theorem safe_tableEntry (slot : Nat) :
    Safe context rest (tableEntry slot) rest fun _ => True := by
  refine Safe.read fun running _ => ?_
  split
  · exact safe_throw rfl
  · exact safe_throw rfl
  · exact safe_pure trivial

namespace Program

variable (program : Program)

/-- Whether a function is called with arguments of the types of its parameters. -/
def Calls (signature : Signature) (target : Nat × List Value) : Prop :=
  program.module.signature? target.1 = some signature ∧
    target.2.map Value.type = signature.params

/-- A direct call. -/
theorem safe_direct {function : Nat} {signature : Signature}
    (found : program.module.signature? function = some signature) :
    Safe context (signature.params.reverse ++ rest) (program.direct function) rest
      (program.Calls signature) := by
  unfold Program.direct
  rw [found]
  exact (safe_takeArguments signature).bind fun _ typed => safe_pure ⟨found, typed⟩

/-- A call through the table. -/
theorem safe_indirect {typeIndex : Nat} {signature : Signature}
    (found : program.module.types[typeIndex]? = some signature) :
    Safe context (.i32 :: (signature.params.reverse ++ rest)) (program.indirect typeIndex) rest
      (program.Calls signature) := by
  unfold Program.indirect
  rw [found]
  refine safe_popI32.bind fun slot _ => (safe_tableEntry slot.toNat).bind fun function _ => ?_
  by_cases same : program.module.signature? function = some signature
  · rw [if_pos same]
    exact (safe_takeArguments signature).bind fun _ typed => safe_pure ⟨same, typed⟩
  · rw [if_neg same]
    exact safe_throw rfl

end Program

/-- **Taking the result of the function.** -/
theorem safe_takeResult (single : context.results.length ≤ 1) :
    Safe context (context.results.reverse ++ rest) takeResult rest
      fun result => result.toList.map Value.type = context.results.reverse := by
  refine Safe.read fun running fits => ?_
  have known : running.activation.function.signature.result? = context.results.head? :=
    congrArg List.head? fits.results
  rw [known]
  cases results : context.results with
  | nil => exact safe_pure rfl
  | cons type others =>
      rw [results, List.length_cons] at single
      have none : others = [] := List.length_eq_zero_iff.mp (by omega)
      subst none
      exact safe_pop.bind fun value same =>
        Safe.check same (safe_pure (congrArg (fun t => [t]) same))

/-- Giving a result to the caller. -/
theorem safe_give (bounds : Bounds) (result : Option Value) :
    Safe context rest (give bounds result) (result.toList.map Value.type ++ rest)
      fun _ => True := by
  cases result with
  | none => exact safe_pure trivial
  | some value => exact safe_push bounds rfl

end

namespace Program

variable {program : Program} {bounds : Bounds} {fuel : Nat}

/-- The signature of a function that a program defines. -/
theorem signature?_of_definition? {index : Nat} {definition : Definition}
    (known : program.definition? index = some definition) :
    program.module.signature? index = some definition.signature := by
  rcases index_cases program.module index with imported | ⟨position, rfl⟩
  · rw [definition?, if_neg imported] at known
    cases known
  · rw [definition?, if_pos (Nat.le_add_right _ _), Nat.add_sub_cancel_left] at known
    obtain ⟨typeIndex, listed, known⟩ := Option.bind_eq_some_iff.mp known
    obtain ⟨signature, declares, known⟩ := Option.bind_eq_some_iff.mp known
    obtain ⟨body, -, known⟩ := Option.bind_eq_some_iff.mp known
    obtain ⟨tree, -, same⟩ := Option.bind_eq_some_iff.mp known
    cases same
    rw [signature?_add, listed]
    exact declares

/-- The signature of a function is among those of its module. -/
theorem mem_types_of_signature? {module : Module} {index : Nat} {signature : Signature}
    (found : module.signature? index = some signature) : signature ∈ module.types := by
  obtain ⟨typeIndex, -, declared⟩ := Option.bind_eq_some_iff.mp found
  exact List.mem_of_getElem? declared

/-- A function that cannot be entered is no matter of types. -/
theorem isSound_of_enter {function depth : Nat} {arguments : List Value} {trap : Trap}
    (fails : program.enter bounds function arguments depth = .error trap) :
    trap.isSound = true := by
  unfold Program.enter at fails
  split at fails
  · cases fails
    rfl
  · split at fails
    · cases fails
      rfl
    · split at fails
      · cases fails
      · cases fails
        rfl

/-- Values are of their types. -/
theorem holds_toArray (values : List Value) :
    Holds values.toArray fun index => (values.map Value.type)[index]? := by
  intro index
  rw [List.getElem?_toArray]
  exact (List.getElem?_map ..).symm

/-- **A function that is called fits its types** when it is entered. -/
theorem fits_of_enter {signature : Signature} {function depth : Nat} {arguments : List Value}
    {activation : Activation} {tree : Code 0}
    (calls : program.Calls signature (function, arguments))
    (entered : program.enter bounds function arguments depth = .ok (activation, tree)) :
    ∃ definition, program.definition? function = some definition ∧
      definition.signature = signature ∧ definition.tree = tree ∧
      ∀ store : Store, store.Fits program.module →
        (⟨activation, store⟩ : Running).Fits (definition.context program.module) [] := by
  unfold Program.enter at entered
  split at entered
  · cases entered
  · split at entered
    · cases entered
    · next definition known =>
        split at entered
        · cases entered
          have same : definition.signature = signature :=
            Option.some.inj ((signature?_of_definition? known).symm.trans calls.1)
          refine ⟨definition, known, same, rfl, fun store globals => ⟨rfl, ?_, globals, rfl⟩⟩
          have slots := holds_toArray (arguments ++ definition.locals.map Value.zero)
          have zeros : (definition.locals.map Value.zero).map Value.type = definition.locals := by
            rw [List.map_map]
            exact (List.map_congr_left fun type _ => Value.type_zero type).trans (List.map_id _)
          rw [List.map_append, zeros, calls.2, ← same] at slots
          exact slots
        · cases entered

/-- **Whether calls are sound** within some depth of loops and calls: called with arguments of the
types of its parameters, a function gives a result of its type and keeps the globals at theirs. -/
def SoundCalls (program : Program) (bounds : Bounds) (fuel : Nat) : Prop :=
  ∀ (signature : Signature) (function : Nat) (arguments : List Value) (store : Store),
    program.Calls signature (function, arguments) → store.Fits program.module →
    (program.resultOf bounds (program.evaluate bounds fuel) function arguments store).Sound
      program.module fun result last =>
        result.toList.map Value.type = signature.results.reverse ∧ last.store.Fits program.module

/-- **Calls are sound if all code is evaluated soundly.** -/
theorem AllBehave.soundCalls (behaves : program.AllBehave bounds fuel) (typed : program.Typed)
    (single : ∀ signature ∈ program.module.types, signature.results.length ≤ 1) :
    program.SoundCalls bounds fuel := by
  intro signature function arguments store calls globals
  unfold Program.resultOf
  cases entered : program.enter bounds function arguments store.depth with
  | error trap => exact ⟨isSound_of_enter entered, globals⟩
  | ok entry =>
      obtain ⟨activation, tree⟩ := entry
      obtain ⟨definition, known, rfl, rfl, fits⟩ := fits_of_enter calls entered
      have few := single _ (mem_types_of_signature? calls.1)
      have body := behaves (definition.context program.module) 0 definition.tree rfl
        Surroundings.outermost [] definition.signature.results.reverse ⟨activation, store.countUp⟩
        (typed.definitions function definition known) (fits store.countUp globals)
      refine (body.andThen fun exit last ends => ?_).countDown fun result last given => given
      -- however the body ends, its results are on top
      have results : ∃ extra, last.Fits (definition.context program.module)
          ((definition.context program.module).results.reverse ++ extra) := by
        cases exit with
        | next => exact ⟨[], ends⟩
        | branch level => exact level.elim0
        | ret => exact ends
      obtain ⟨extra, laterFits⟩ := results
      have taken := Evaluation.sound_ofExecution (safe_takeResult few) laterFits
      exact taken.weaken fun result final given => ⟨given.1, given.2.globals⟩

/-- **A call by a running function.** -/
theorem SoundCalls.invoke (soundCalls : program.SoundCalls bounds fuel) {context : TypingContext}
    (module : context.module = program.module) {signature : Signature}
    {callee : Execution (Nat × List Value)} {takes rest : List ValueType}
    (safe : Safe context takes callee rest (program.Calls signature)) {running : Running}
    (fits : running.Fits context takes) :
    (program.invoke bounds (program.evaluate bounds fuel) callee running).Sound context.module
      fun _ later => later.Fits context (signature.results.reverse ++ rest) := by
  unfold Program.invoke
  refine (Evaluation.sound_ofExecution safe fits).andThen fun target caller called => ?_
  obtain ⟨calls, callerFits⟩ := called
  rw [module]
  have globals : caller.store.Fits program.module := module ▸ callerFits.globals
  refine (soundCalls signature _ _ _ calls globals).andThen fun result last given => ?_
  obtain ⟨results, lastGlobals⟩ := given
  -- the caller is as it was, but for the store
  have backFits : (⟨caller.activation, last.store⟩ : Running).Fits context rest :=
    { callerFits with globals := module ▸ lastGlobals }
  have back := Evaluation.sound_ofExecution (safe_give bounds result) backFits
  rw [results, module] at back
  exact back.weaken fun _ _ => And.right

end Program

/-! ## Code -/

section

variable {program : Program} {bounds : Bounds} {fuel : Nat} {context : TypingContext} {depth : Nat}
  {next : Code depth}

/-- The end of a sequence. -/
theorem behaves_empty : program.Behaves bounds (fuel + 1) context (.empty : Code depth) := by
  intro around stack goal running typed fits
  have same : stack = goal := typed
  subst same
  exact fits

/-- What an instruction leads to: operands of its types for the next one, or a return with the
results on top. -/
def Continues (context : TypingContext) (transfer : Bool) (leaves : List ValueType)
    (follows : Bool) (later : Running) : Prop :=
  if follows then transfer = false ∧ later.Fits context leaves
  else ∃ extra, later.Fits context (context.results.reverse ++ extra)

/-- An instruction that neither calls nor returns. -/
theorem sound_effect {again : {depth : Nat} → Code depth → Running → Evaluation (Exit depth)}
    {instruction : PlainInstruction} {takes leaves rest : List ValueType}
    (typed : instruction.HasType context takes leaves) (straight : instruction.isStraight = true)
    (follows : instruction.isTransfer = false) {running : Running}
    (fits : running.Fits context (takes ++ rest)) :
    (program.plain bounds again instruction running).Sound context.module
      (Continues context instruction.isTransfer (leaves ++ rest)) := by
  have plain : program.plain bounds again instruction running =
      (Evaluation.ofExecution (instruction.effect bounds) running).andThen
        fun _ => .ended true := by
    cases instruction <;> first | rfl | cases straight
  rw [plain]
  refine (Evaluation.sound_ofExecution (typed.safe straight bounds rest) fits).andThen ?_
  exact fun _ later lands => ⟨follows, lands.2⟩

/-- A call, after which the next instruction follows. -/
theorem sound_invoke (soundCalls : program.SoundCalls bounds fuel)
    (module : context.module = program.module) {signature : Signature}
    {callee : Execution (Nat × List Value)} {takes rest : List ValueType}
    (safe : Safe context takes callee rest (program.Calls signature)) {running : Running}
    (fits : running.Fits context takes) :
    ((program.invoke bounds (program.evaluate bounds fuel) callee running).andThen fun _ =>
        .ended true).Sound context.module
      (Continues context false (signature.results.reverse ++ rest)) :=
  (soundCalls.invoke module safe fits).andThen fun _ _ laterFits => ⟨rfl, laterFits⟩

/-- **An instruction without block structure.** -/
theorem sound_plain (soundCalls : program.SoundCalls bounds fuel)
    (module : context.module = program.module) {instruction : PlainInstruction}
    {takes leaves rest : List ValueType} (typed : instruction.HasType context takes leaves)
    {running : Running} (fits : running.Fits context (takes ++ rest)) :
    (program.plain bounds (program.evaluate bounds fuel) instruction running).Sound context.module
      (Continues context instruction.isTransfer (leaves ++ rest)) := by
  cases instruction with
  | unreachable => exact ⟨rfl, fits.globals⟩
  | ret =>
      cases typed with
      | ret => exact ⟨rest, fits⟩
  | call function =>
      cases typed with
      | call found =>
          rw [module] at found
          exact sound_invoke soundCalls module (program.safe_direct found) fits
  | callIndirect typeIndex =>
      cases typed with
      | callIndirect found =>
          rw [module] at found
          exact sound_invoke soundCalls module (program.safe_indirect found) fits
  | _ => exact sound_effect typed rfl rfl fits

/-- An instruction without block structure, and what follows it. -/
theorem behaves_plain (soundCalls : program.SoundCalls bounds fuel)
    (module : context.module = program.module) {offset : Nat} {instruction : PlainInstruction}
    (sequel : program.Behaves bounds (fuel + 1) context next) :
    program.Behaves bounds (fuel + 1) context (.plain offset instruction next) := by
  intro around stack goal running typed fits
  obtain ⟨takes, leaves, after, instructionTyped, ⟨rest, rfl, onward⟩, nextTyped⟩ := typed
  rw [List.append_assoc] at fits
  refine (sound_plain soundCalls module instructionTyped fits).andThen ?_
  intro follows later continues
  cases follows with
  | false => exact continues
  | true =>
      -- the next instruction follows only where the operands after this one are determined
      obtain ⟨stays, laterFits⟩ := continues
      have same : after = leaves ++ rest := onward stays
      subst same
      rw [← List.append_assoc] at laterFits
      exact sequel around _ goal later nextTyped laterFits

/-- A branch, and what follows it if it is not taken. -/
theorem behaves_jump {offset : Nat} {leap : Jump depth}
    (sequel : program.Behaves bounds (fuel + 1) context next) :
    program.Behaves bounds (fuel + 1) context (.jump offset leap next) := by
  intro around stack goal running typed fits
  obtain ⟨takes, leaves, after, leapTyped, ⟨rest, rfl, onward⟩, nextTyped⟩ := typed
  rw [List.append_assoc] at fits
  obtain ⟨moved, safe⟩ := leapTyped.safe (rest ++ around.below)
  refine (Evaluation.sound_ofExecution safe fits).andThen ?_
  rintro chosen later ⟨⟨taken, passed⟩, laterFits⟩
  cases chosen with
  | some level =>
      have carried : around.carried level = moved := taken level rfl
      refine ⟨rest ++ around.below, ?_, carried ▸ laterFits⟩
      exact (around.nested level).trans (List.suffix_append _ _)
  | none =>
      obtain ⟨stays, rfl⟩ := passed rfl
      have same : after = leaves ++ rest := onward stays
      subst same
      rw [← List.append_assoc] at laterFits
      exact sequel around _ goal later nextTyped laterFits

/-- **The end of a block** after code that ends as its types say. -/
theorem sound_leaving {around : Surroundings depth} {types stack ends goal : List ValueType}
    {inside : Evaluation (Exit (depth + 1))} {caught onward : Running → Evaluation (Exit depth)}
    (sound : inside.Sound context.module (Ends context (around.inside types stack) ends))
    (catches : ∀ (later : Running) (extra : List ValueType), stack ++ around.below <:+ extra →
      later.Fits context (types ++ extra) →
      (caught later).Sound context.module (Ends context around goal))
    (continues : ∀ later : Running, later.Fits context (ends ++ (stack ++ around.below)) →
      (onward later).Sound context.module (Ends context around goal)) :
    (inside.leaving caught onward).Sound context.module (Ends context around goal) := by
  refine sound.andThen fun exit later lands => ?_
  match exit, lands with
  | .next, lands => exact continues later lands
  | .branch ⟨0, _⟩, ⟨extra, still, fits⟩ => exact catches later extra still fits
  | .branch ⟨level + 1, below⟩, lands => exact lands
  | .ret, lands => exact lands

/-- The code of a block that branches leave, entered with operands of the types `stack`, and what
follows the block. -/
theorem sound_block {around : Surroundings depth} {stack goal : List ValueType} {type : BlockType}
    {body : Code (depth + 1)} (inside : program.Behaves bounds (fuel + 1) context body)
    (sequel : program.Behaves bounds (fuel + 1) context next)
    (bodyTyped : body.Typed context (Fin.cases type.toList around.carried) [] type.toList)
    (nextTyped : next.Typed context around.carried (type.toList ++ stack) goal)
    {running : Running} (fits : running.Fits context (stack ++ around.below)) :
    ((program.evaluate bounds (fuel + 1) body running).leaving
        (fun later => program.evaluate bounds (fuel + 1) next
          (later.cut running.height type.arity))
        (program.evaluate bounds (fuel + 1) next)).Sound context.module
      (Ends context around goal) := by
  have body := inside (around.inside type.toList stack) [] type.toList running bodyTyped fits
  refine sound_leaving body (fun later extra still laterFits => ?_) fun later laterFits => ?_
  · have cut := laterFits.cut still fits.height_eq type.length_toList.symm
    rw [← List.append_assoc] at cut
    exact sequel around _ goal _ nextTyped cut
  · rw [← List.append_assoc] at laterFits
    exact sequel around _ goal later nextTyped laterFits

/-- A block that branches repeat, and what follows it. A branch to it starts it again with the
operands that it was entered with. -/
theorem behaves_loop (behaves : program.AllBehave bounds fuel)
    (module : context.module = program.module) {offset finish : Nat} {type : BlockType}
    {body : Code (depth + 1)} (inside : program.Behaves bounds (fuel + 1) context body)
    (sequel : program.Behaves bounds (fuel + 1) context next) :
    program.Behaves bounds (fuel + 1) context (.block offset .loop type body finish next) := by
  intro around stack goal running typed fits
  obtain ⟨bodyTyped, nextTyped⟩ := typed
  have body := inside (around.inside [] stack) [] type.toList running bodyTyped fits
  refine sound_leaving body (fun later extra still laterFits => ?_) fun later laterFits => ?_
  · have cut := laterFits.cut still fits.height_eq rfl
    exact behaves context depth _ module around stack goal _ ⟨bodyTyped, nextTyped⟩ cut
  · rw [← List.append_assoc] at laterFits
    exact sequel around _ goal later nextTyped laterFits

/-- A conditional block with one arm, and what follows it. -/
theorem behaves_ifThen {offset finish : Nat} {type : BlockType} {arm : Code (depth + 1)}
    (inside : program.Behaves bounds (fuel + 1) context arm)
    (sequel : program.Behaves bounds (fuel + 1) context next) :
    program.Behaves bounds (fuel + 1) context (.ifThen offset type arm finish next) := by
  intro around stack goal running typed fits
  obtain ⟨rest, rfl, rfl, armTyped, nextTyped⟩ := typed
  refine (Evaluation.sound_ofExecution safe_popI32 fits).andThen fun condition later lands => ?_
  obtain ⟨-, laterFits⟩ := lands
  by_cases holds : condition ≠ 0
  · rw [if_pos holds]
    exact sound_block inside sequel armTyped nextTyped laterFits
  · rw [if_neg holds]
    exact sequel around rest goal later nextTyped laterFits

/-- A conditional block with two arms, and what follows it. -/
theorem behaves_ifElse {offset middle finish : Nat} {type : BlockType}
    {arm otherwise : Code (depth + 1)} (first : program.Behaves bounds (fuel + 1) context arm)
    (second : program.Behaves bounds (fuel + 1) context otherwise)
    (sequel : program.Behaves bounds (fuel + 1) context next) :
    program.Behaves bounds (fuel + 1) context
      (.ifElse offset type arm middle otherwise finish next) := by
  intro around stack goal running typed fits
  obtain ⟨rest, rfl, armTyped, otherwiseTyped, nextTyped⟩ := typed
  refine (Evaluation.sound_ofExecution safe_popI32 fits).andThen fun condition later lands => ?_
  obtain ⟨-, laterFits⟩ := lands
  by_cases holds : condition ≠ 0
  · simp only [if_pos holds]
    exact sound_block first sequel armTyped nextTyped laterFits
  · simp only [if_neg holds]
    exact sound_block second sequel otherwiseTyped nextTyped laterFits

/-- **Typed code is evaluated soundly** if callees and repeated loops are. -/
theorem behaves (soundCalls : program.SoundCalls bounds fuel)
    (behaves : program.AllBehave bounds fuel) (module : context.module = program.module)
    (code : Code depth) : program.Behaves bounds (fuel + 1) context code := by
  induction code with
  | empty => exact behaves_empty
  | plain offset instruction next sequel =>
      exact behaves_plain soundCalls module sequel
  | jump offset leap next sequel => exact behaves_jump sequel
  | block offset kind type body finish next inside sequel =>
      cases kind with
      | block =>
          intro around stack goal running typed fits
          exact sound_block inside sequel typed.1 typed.2 fits
      | loop => exact behaves_loop behaves module inside sequel
  | ifThen offset type arm finish next inside sequel => exact behaves_ifThen inside sequel
  | ifElse offset type arm middle otherwise finish next first second sequel =>
      exact behaves_ifElse first second sequel

end

namespace Program

variable {program : Program}

/-- **All typed code of a program is evaluated soundly.** -/
theorem allBehave (typed : program.Typed)
    (single : ∀ signature ∈ program.module.types, signature.results.length ≤ 1) (bounds : Bounds)
    (fuel : Nat) :
    program.AllBehave bounds fuel := by
  induction fuel with
  | zero => exact fun _ _ _ _ _ _ _ _ _ _ => trivial
  | succ fuel fuelInduction =>
      have soundCalls := fuelInduction.soundCalls typed single
      exact fun context depth code module => behaves soundCalls fuelInduction module code

/-- **All calls of typed functions are sound.** -/
theorem soundCalls (typed : program.Typed)
    (single : ∀ signature ∈ program.module.types, signature.results.length ≤ 1) (bounds : Bounds)
    (fuel : Nat) : program.SoundCalls bounds fuel :=
  (allBehave typed single bounds fuel).soundCalls typed single

end Program

end WasmCompiler
