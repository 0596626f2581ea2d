import WasmCompiler.Proofs.Balance

/-! # Typing of structured code

The typing rules for the code of functions. Every instruction takes operands of certain types and
leaves others; a branch to a block carries operands of the types that the block asks for; a block
sees no operand from outside and leaves what its type says. Nothing is left of the operands after an
unconditional transfer, so the code after it may start from operands of any types.

Lists of types are like operands, the topmost first. Code that satisfies the rules is balanced.

* **`PlainInstruction.HasType`** — what instructions take and leave;
* **`Code.Typed`** — the rules for sequences;
* **`Program.Typed`** — the rules for all functions of a program;
* **`Program.Typed.balanced`** — typed programs are balanced. -/

namespace WasmCompiler

/-! ## Numeric operations -/

namespace NumericConversion

/-- The type of the operand of a conversion. -/
def source : NumericConversion → ValueType
  | .wrap => .i64
  | .truncate _ source _ => source.toValueType
  | .extend _ => .i32
  | .convert _ source _ => source.toValueType
  | .demote => .f64
  | .promote => .f32
  | .bitsOfFloat source => source.toValueType
  | .floatOfBits source => source.toValueType

/-- The type of the result of a conversion. -/
def target : NumericConversion → ValueType
  | .wrap => .i32
  | .truncate target _ _ => target.toValueType
  | .extend _ => .i64
  | .convert target _ _ => target.toValueType
  | .demote => .f32
  | .promote => .f64
  | .bitsOfFloat .f32 => .i32
  | .bitsOfFloat .f64 => .i64
  | .floatOfBits .i32 => .f32
  | .floatOfBits .i64 => .f64

end NumericConversion

namespace NumericOp

/-- The type of every operand of a numeric operation. -/
def operandType : NumericOp → ValueType
  | .eqz type | .intCompare type _ | .intUnary type _ | .intBinary type _ => type.toValueType
  | .floatCompare type _ | .floatUnary type _ | .floatBinary type _ => type.toValueType
  | .conversion op => op.source

/-- The type of the result of a numeric operation. -/
def resultType : NumericOp → ValueType
  | .eqz _ | .intCompare _ _ | .floatCompare _ _ => .i32
  | .intUnary type _ | .intBinary type _ => type.toValueType
  | .floatUnary type _ | .floatBinary type _ => type.toValueType
  | .conversion op => op.target

/-- The types of the operands of a numeric operation. -/
def operands (operation : NumericOp) : List ValueType :=
  List.replicate operation.operandCount operation.operandType

end NumericOp

/-! ## Instructions and branches -/

/-- What the types of code in a function depend on. -/
structure TypingContext where
  /-- The module. -/
  module : Module
  /-- The types of the arguments and of the locals after them. -/
  slots : List ValueType
  /-- The types of the results. -/
  results : List ValueType

/-- **The operands that an instruction takes and leaves**, by their types. -/
inductive PlainInstruction.HasType (context : TypingContext) :
    PlainInstruction → (takes leaves : List ValueType) → Prop where
  | unreachable : HasType context .unreachable [] []
  | nop : HasType context .nop [] []
  /-- A return takes the results of the function. -/
  | ret : HasType context .ret context.results.reverse []
  /-- A call takes arguments of the callee and leaves its results. -/
  | call {function : UInt32} {signature : Signature}
      (found : context.module.signature? function.toNat = some signature) :
      HasType context (.call function) signature.params.reverse signature.results.reverse
  /-- A call through the table takes the number of the slot from above the arguments. -/
  | callIndirect {typeIndex : UInt32} {signature : Signature}
      (found : context.module.types[typeIndex.toNat]? = some signature) :
      HasType context (.callIndirect typeIndex) (.i32 :: signature.params.reverse)
        signature.results.reverse
  | drop (type : ValueType) : HasType context .drop [type] []
  /-- A choice is made between operands of one type. -/
  | select (type : ValueType) : HasType context .select [.i32, type, type] [type]
  | getLocal {index : UInt32} {type : ValueType}
      (found : context.slots[index.toNat]? = some type) :
      HasType context (.getLocal index) [] [type]
  | setLocal {index : UInt32} {type : ValueType}
      (found : context.slots[index.toNat]? = some type) :
      HasType context (.setLocal index) [type] []
  | teeLocal {index : UInt32} {type : ValueType}
      (found : context.slots[index.toNat]? = some type) :
      HasType context (.teeLocal index) [type] [type]
  | getGlobal {index : UInt32} {type : ValueType}
      (found : (context.module.globalType? index.toNat).map GlobalType.content = some type) :
      HasType context (.getGlobal index) [] [type]
  | setGlobal {index : UInt32} {type : ValueType}
      (found : (context.module.globalType? index.toNat).map GlobalType.content = some type) :
      HasType context (.setGlobal index) [type] []
  /-- A load takes an address. -/
  | load {accessor : Accessor} {alignment offset : UInt32} (loads : accessor.isStore = false) :
      HasType context (.access accessor alignment offset) [.i32] [accessor.type]
  /-- A store takes a value from above an address. -/
  | store {accessor : Accessor} {alignment offset : UInt32} (stores : accessor.isStore = true) :
      HasType context (.access accessor alignment offset) [accessor.type, .i32] []
  | currentMemory : HasType context .currentMemory [] [.i32]
  | growMemory : HasType context .growMemory [.i32] [.i32]
  | const (value : Value) : HasType context (.const value) [] [value.type]
  | numeric (operation : NumericOp) :
      HasType context (.numeric operation) operation.operands [operation.resultType]

/-- **The operands that a branch takes and leaves**, if branches to a level carry operands of the
types `carried`. What it leaves matters only if it is not taken. -/
inductive Jump.HasType {depth : Nat} (carried : Fin depth → List ValueType) :
    Jump depth → (takes leaves : List ValueType) → Prop where
  | always (level : Fin depth) : HasType carried (.always level) (carried level) []
  | ifTrue (level : Fin depth) :
      HasType carried (.ifTrue level) (.i32 :: carried level) (carried level)
  /-- All branches of a table carry operands of the same types. -/
  | table {levels : List (Fin depth)} {fallback : Fin depth} {types : List ValueType}
      (same : ∀ level ∈ levels ++ [fallback], carried level = types) :
      HasType carried (.table levels fallback) (.i32 :: types) []

/-! ## Sequences -/

/-- **Whether operands become others** in front of the next instruction, if some are taken and
others are left. After an unconditional transfer they may be any. -/
def Retypes (transfer : Bool) (takes leaves stack after : List ValueType) : Prop :=
  ∃ rest, stack = takes ++ rest ∧ (transfer = false → after = leaves ++ rest)

/-- The types of the operands that a branch to a block carries. -/
def BlockKind.carriedTypes (kind : BlockKind) (type : BlockType) : List ValueType :=
  match kind with
  | .block => type.toList
  | .loop => []

/-- **Whether a sequence satisfies the typing rules.** Since the start of the innermost block there
are operands of the types `stack`, and there have to be operands of the types `goal` at the end. A
branch to a level carries operands of the types that `carried` says. -/
def Code.Typed (context : TypingContext) : {depth : Nat} → Code depth →
    (carried : Fin depth → List ValueType) → (stack goal : List ValueType) → Prop
  | _, .empty, _, stack, goal => stack = goal
  | _, .plain _ instruction next, carried, stack, goal =>
      ∃ takes leaves after, instruction.HasType context takes leaves ∧
        Retypes instruction.isTransfer takes leaves stack after ∧
        next.Typed context carried after goal
  | _, .jump _ leap next, carried, stack, goal =>
      ∃ takes leaves after, leap.HasType carried takes leaves ∧
        Retypes leap.isTransfer takes leaves stack after ∧ next.Typed context carried after goal
  | _, .block _ kind type body _ next, carried, stack, goal =>
      body.Typed context (Fin.cases (kind.carriedTypes type) carried) [] type.toList ∧
        next.Typed context carried (type.toList ++ stack) goal
  | _, .ifThen _ type arm _ next, carried, stack, goal =>
      ∃ rest, stack = .i32 :: rest ∧ type = none ∧
        arm.Typed context (Fin.cases type.toList carried) [] type.toList ∧
        next.Typed context carried (type.toList ++ rest) goal
  | _, .ifElse _ type arm _ otherwise _ next, carried, stack, goal =>
      ∃ rest, stack = .i32 :: rest ∧
        arm.Typed context (Fin.cases type.toList carried) [] type.toList ∧
        otherwise.Typed context (Fin.cases type.toList carried) [] type.toList ∧
        next.Typed context carried (type.toList ++ rest) goal

/-- What the types of the code of a function depend on. -/
def Definition.context (module : Module) (definition : Definition) : TypingContext where
  module := module
  slots := definition.signature.params ++ definition.locals
  results := definition.signature.results

/-- Whether the code of a function satisfies the typing rules. -/
def Definition.Typed (module : Module) (definition : Definition) : Prop :=
  definition.tree.Typed (definition.context module) (fun level => level.elim0) []
    definition.signature.results.reverse

/-- **Whether a program satisfies the typing rules.** -/
structure Program.Typed (program : Program) : Prop where
  /-- The code of every function satisfies the rules. -/
  definitions : ∀ index definition, program.definition? index = some definition →
    definition.Typed program.module
  /-- The start function has neither parameters nor results. -/
  start : ∀ function, program.module.start = some function →
    program.module.signature? function.toNat = some {}

/-! ## Balance -/

/-- Instructions take and leave as many operands as their types say. -/
theorem PlainInstruction.HasType.exchange {context : TypingContext}
    {instruction : PlainInstruction} {takes leaves : List ValueType}
    (typed : instruction.HasType context takes leaves) :
    instruction.exchange context.module context.results.length = (takes.length, leaves.length) := by
  cases typed with
  | call found => simp [PlainInstruction.exchange, found]
  | callIndirect found => simp [PlainInstruction.exchange, found]
  | load loads => simp [PlainInstruction.exchange, loads]
  | store stores => simp [PlainInstruction.exchange, stores]
  | numeric operation => simp [PlainInstruction.exchange, NumericOp.operands]
  | _ => simp [PlainInstruction.exchange]

/-- Branches take as many operands as their types say: those that they carry, and one that decides
where they go. -/
theorem Jump.HasType.length_takes {depth : Nat} {carried : Fin depth → List ValueType}
    {leap : Jump depth} {takes leaves : List ValueType}
    (typed : leap.HasType carried takes leaves) :
    ∀ level ∈ leap.levels, takes.length = (carried level).length + leap.takes := by
  intro level listed
  cases typed with
  | always target =>
      have same : level = target := List.mem_singleton.mp listed
      rw [same]
      rfl
  | ifTrue target =>
      have same : level = target := List.mem_singleton.mp listed
      rw [same]
      rfl
  | table same =>
      rw [same level listed]
      rfl

/-- A branch that is not taken leaves all but the operand that decided so. -/
theorem Jump.HasType.length_leaves {depth : Nat} {carried : Fin depth → List ValueType}
    {leap : Jump depth} {takes leaves : List ValueType} (typed : leap.HasType carried takes leaves)
    (follows : leap.isTransfer = false) : takes.length = leaves.length + leap.takes := by
  cases typed with
  | always level => cases follows
  | ifTrue level => rfl
  | table same => cases follows

/-- Every branch names a level. -/
theorem Jump.exists_mem_levels {depth : Nat} (leap : Jump depth) :
    ∃ level, level ∈ leap.levels := by
  cases leap with
  | always level => exact ⟨level, List.mem_singleton_self level⟩
  | ifTrue level => exact ⟨level, List.mem_singleton_self level⟩
  | table levels fallback =>
      exact ⟨fallback, List.mem_append_right levels (List.mem_singleton_self fallback)⟩

/-- A block leaves as many operands as its type says. -/
theorem BlockType.length_toList (type : BlockType) : type.toList.length = type.arity := by
  cases type <;> rfl

/-- A branch to a block carries as many operands as the block asks for. -/
theorem BlockKind.length_carriedTypes (kind : BlockKind) (type : BlockType) :
    (kind.carriedTypes type).length = kind.carries type := by
  cases kind with
  | block => exact type.length_toList
  | loop => rfl

/-- The number of operands that a branch carries from inside one more block. -/
theorem length_carried_inside {depth : Nat} (types : List ValueType)
    (carried : Fin depth → List ValueType) :
    (fun level : Fin (depth + 1) => (Fin.cases types carried level : List ValueType).length) =
      Fin.cases types.length fun level => (carried level).length := by
  funext level
  cases level using Fin.cases <;> rfl

/-- **Typed code is balanced.** -/
theorem Code.Typed.balanced {context : TypingContext} {depth : Nat} {code : Code depth}
    {carried : Fin depth → List ValueType} {stack goal : List ValueType}
    (typed : code.Typed context carried stack goal) (base : Nat) :
    code.Balanced context.module context.results.length (fun level => (carried level).length) base
      (base + stack.length) (base + goal.length) := by
  -- The base is arbitrary, since a block counts its operands from where it was entered.
  induction code generalizing stack goal base with
  | empty =>
      have same : stack = goal := typed
      rw [same]
      rfl
  | plain offset instruction next sequel =>
      obtain ⟨takes, leaves, after, instructionTyped, ⟨rest, rfl, onward⟩, nextTyped⟩ := typed
      unfold Code.Balanced
      rw [instructionTyped.exchange, List.length_append]
      refine ⟨by omega, fun follows => ?_⟩
      have balanced := sequel nextTyped base
      rw [onward follows, List.length_append] at balanced
      have height : base + (takes.length + rest.length) - takes.length + leaves.length =
          base + (leaves.length + rest.length) := by omega
      rw [height]
      exact balanced
  | jump offset leap next sequel =>
      obtain ⟨takes, leaves, after, leapTyped, ⟨rest, rfl, onward⟩, nextTyped⟩ := typed
      unfold Code.Balanced
      rw [List.length_append]
      refine ⟨?_, fun level listed => ?_, fun follows => ?_⟩
      · obtain ⟨level, listed⟩ := leap.exists_mem_levels
        have := leapTyped.length_takes level listed
        omega
      · have := leapTyped.length_takes level listed
        show base + (carried level).length ≤ base + (takes.length + rest.length) - leap.takes
        omega
      · have balanced := sequel nextTyped base
        rw [onward follows, List.length_append] at balanced
        have := leapTyped.length_leaves follows
        have height : base + (takes.length + rest.length) - leap.takes =
            base + (leaves.length + rest.length) := by omega
        rw [height]
        exact balanced
  | block offset kind type body finish next inside sequel =>
      obtain ⟨bodyTyped, nextTyped⟩ := typed
      have bodyBalanced := inside bodyTyped (base + stack.length)
      have nextBalanced := sequel nextTyped base
      rw [length_carried_inside, BlockKind.length_carriedTypes, BlockType.length_toList]
        at bodyBalanced
      rw [List.length_append, BlockType.length_toList, Nat.add_comm type.arity, ← Nat.add_assoc]
        at nextBalanced
      exact ⟨bodyBalanced, nextBalanced⟩
  | ifThen offset type arm finish next inside sequel =>
      obtain ⟨rest, rfl, empty, armTyped, nextTyped⟩ := typed
      have armBalanced := inside armTyped (base + rest.length)
      have nextBalanced := sequel nextTyped base
      rw [length_carried_inside, BlockType.length_toList] at armBalanced
      rw [List.length_append, BlockType.length_toList, Nat.add_comm type.arity, ← Nat.add_assoc]
        at nextBalanced
      exact ⟨Nat.add_le_add_left (Nat.le_add_left 1 _) base, empty, armBalanced, nextBalanced⟩
  | ifElse offset type arm middle otherwise finish next first second sequel =>
      obtain ⟨rest, rfl, armTyped, otherwiseTyped, nextTyped⟩ := typed
      have armBalanced := first armTyped (base + rest.length)
      have otherwiseBalanced := second otherwiseTyped (base + rest.length)
      have nextBalanced := sequel nextTyped base
      rw [length_carried_inside, BlockType.length_toList] at armBalanced otherwiseBalanced
      rw [List.length_append, BlockType.length_toList, Nat.add_comm type.arity, ← Nat.add_assoc]
        at nextBalanced
      exact ⟨Nat.add_le_add_left (Nat.le_add_left 1 _) base, armBalanced, otherwiseBalanced,
        nextBalanced⟩

/-- **Typed programs are balanced.** -/
theorem Program.Typed.balanced {program : Program} (typed : program.Typed) : program.Balanced := by
  intro index definition known
  have balanced := (typed.definitions index definition known).balanced 0
  have none : (fun level : Fin 0 => (level.elim0 : List ValueType).length) =
      fun level => level.elim0 := funext fun level => level.elim0
  rw [none, List.length_reverse, Nat.zero_add, Nat.zero_add] at balanced
  exact balanced

end WasmCompiler
