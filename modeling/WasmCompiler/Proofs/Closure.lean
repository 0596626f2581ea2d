import WasmCompiler.Proofs.Acceptance
import WasmCompiler.Proofs.Preservation

/-! # Closed assemblies

The assembly of a module refers only to what it has. Emission checks what instructions refer to in
the index spaces of the module, and assembling replaces labels by positions; in the assembly
operations refer to arguments and locals apart, to functions by their place and to positions in
their code, and none of these references leads out of it.

* **`Op.Refers`** — an operation refers to what there is, its targets aside;
* **`Function.Closed`** — so do all operations of a function, whose code ends with a return and
  whose targets are positions in it;
* **`closed_of_compile`** — the functions of the assembly of a module are closed. -/

namespace WasmCompiler.Bytecode

/-! ## References of operations -/

/-- **Whether an operation of a function refers to what there is**: to arguments and locals of the
function, and to globals, functions and signatures of the assembly. -/
def Op.Refers {Target : Type} (assembly : Assembly) (function : Function) : Op Target → Prop
  | .loadArg index | .storeArg index => index < function.signature.params.length
  | .loadLocal index | .storeLocal index => index < function.locals.length
  | .loadGlobal index | .storeGlobal index => index < assembly.globalCount
  | .call callee => (assembly.signature? callee).isSome
  | .callIndirect typeIndex => typeIndex < assembly.types.length
  | _ => True

/-- **Whether a function is closed**: wherever its code leads, there is something. -/
structure Function.Closed (assembly : Assembly) (function : Function) : Prop where
  /-- The code ends with a return. -/
  ends : function.code.back? = some .ret
  /-- Targets are positions in the code. -/
  targets : ∀ op ∈ function.code, ∀ target ∈ op.targets, target < function.code.size
  /-- Operations refer to what there is. -/
  refers : ∀ op ∈ function.code, op.Refers assembly function

namespace Function.Closed

variable {assembly : Assembly} {function : Function}

/-- Closed functions have code. -/
theorem size_pos (closed : function.Closed assembly) : 0 < function.code.size := by
  obtain ⟨inside, -⟩ :=
    Array.getElem?_eq_some_iff.mp (Array.back?_eq_getElem?.symm.trans closed.ends)
  exact Nat.lt_of_le_of_lt (Nat.zero_le _) inside

/-- Another operation follows every one that does not return. -/
theorem succ_lt_size (closed : function.Closed assembly) {position : Nat} {op : Op Nat}
    (found : function.code[position]? = some op) (onward : op ≠ .ret) :
    position + 1 < function.code.size := by
  obtain ⟨inside, -⟩ := Array.getElem?_eq_some_iff.mp found
  -- An operation with no successor is the last one, which is a return.
  refine Nat.lt_of_le_of_ne inside fun last => onward ?_
  have ends := Array.back?_eq_getElem?.symm.trans closed.ends
  rw [← last, Nat.add_sub_cancel, found] at ends
  exact Option.some.inj ends

end Function.Closed

namespace Op

variable {assembly : Assembly} {function : Function}

/-- Other targets make no difference to the references. -/
@[simp] theorem refers_relabel {α β : Type} {place : α → β} {op : Op α} :
    (op.relabel place).Refers assembly function ↔ op.Refers assembly function := by
  cases op <;> exact Iff.rfl

/-- Placing the labels of an operation places its targets. -/
@[simp] theorem targets_relabel {α β : Type} (place : α → β) (op : Op α) :
    (op.relabel place).targets = op.targets.map place := by
  cases op <;> simp [relabel, targets]

/-- Whether an operation only directs control or removes operands: emission puts such operations
between those of instructions. -/
def isControl {Target : Type} : Op Target → Bool
  | .jump _ | .jumpIf _ | .jumpUnless _ | .switch _ _ | .unwind _ _ | .ret => true
  | _ => false

/-- Control refers to nothing but targets. -/
theorem refers_of_isControl {Target : Type} {op : Op Target} (control : op.isControl = true) :
    op.Refers assembly function := by
  cases op <;> trivial

/-- Computations refer to nothing. -/
theorem refers_of_isComputation {Target : Type} {op : Op Target}
    (computes : op.isComputation = true) : op.Refers assembly function := by
  cases op <;> trivial

end Op

end WasmCompiler.Bytecode

namespace WasmCompiler.Emission

open Bytecode (Assembly Function Op)

/-! ## References of drafts -/

/-- **Whether a function of an assembly has what there is at a site**. -/
structure Site.Hosts (site : Site) (assembly : Assembly) (function : Function) : Prop where
  /-- The globals. -/
  globals : assembly.globalCount = site.module.globalCount
  /-- The signatures. -/
  types : assembly.types = site.module.types
  /-- The functions. -/
  signatures : ∀ index, assembly.signature? index = site.module.signature? index
  /-- The arguments. -/
  signature : function.signature = site.signature
  /-- The locals. -/
  locals : function.locals = site.body.locals

/-! ## Operations of drafts -/

/-- **Whether a property holds of all operations that directives add.** -/
def Emits (holds : Op Nat → Prop) (directives : List Directive) : Prop :=
  ∀ op ∈ emitted directives, holds op

section

variable {holds : Op Nat → Prop}

/-- Where there are no directives, no operation is emitted. -/
theorem emits_nil : Emits holds [] :=
  List.forall_mem_nil _

/-- Directives in a row emit what either part does. -/
theorem emits_append {first second : List Directive} :
    Emits holds (first ++ second) ↔ Emits holds first ∧ Emits holds second := by
  rw [Emits, emitted_append, List.forall_mem_append]
  rfl

/-- Directives for operations emit just those. -/
theorem emits_operations {ops : List (Op Nat)} :
    Emits holds (operations ops) ↔ ∀ op ∈ ops, holds op := by
  rw [Emits, emitted_operations]

/-- A directive for an operation emits it, and those after it emit theirs. -/
theorem emits_op {op : Op Nat} {rest : List Directive} :
    Emits holds (.op op :: rest) ↔ holds op ∧ Emits holds rest :=
  List.forall_mem_cons

/-- Drafts one after the other add what each adds. -/
theorem Emits.andThen {first : Draft} {further : Stage → Draft}
    (emits : Emits holds first.directives)
    (onward : Emits holds (further first.stage).directives) :
    Emits holds (first.andThen further).directives :=
  emits_append.mpr ⟨emits, onward⟩

/-- Definitions of labels add no operation. -/
theorem emits_replicate (count : Nat) : Emits holds (List.replicate count .defineLabel) := by
  induction count with
  | zero => exact emits_nil
  | succ count countInduction => exact countInduction

variable (control : ∀ op : Op Nat, op.isControl = true → holds op)

include control

/-- Removing operands and branching adds nothing but control. -/
theorem emits_removal (removal : Unwind) {last : Op Nat} (isControl : last.isControl = true) :
    Emits holds (operations (removal.operations ++ [last])) := by
  refine emits_operations.mpr
    (List.forall_mem_append.mpr ⟨?_, List.forall_mem_singleton.mpr (control last isControl)⟩)
  unfold Unwind.operations
  split
  · exact List.forall_mem_nil _
  · exact List.forall_mem_singleton.mpr (control _ rfl)

/-- A conditional branch adds nothing but control. -/
theorem emits_conditional (target : Nat × Unwind) (stage : Stage) :
    Emits holds (conditionalDraft target stage).directives := by
  unfold conditionalDraft
  split
  · exact emits_op.mpr ⟨control _ rfl, emits_nil⟩
  · exact emits_op.mpr
      ⟨control _ rfl, emits_append.mpr ⟨emits_removal control target.2 rfl, emits_nil⟩⟩

/-- Nor do landing pads. -/
theorem emits_pads (pad : Nat) (targets : List (Nat × Unwind)) :
    Emits holds (padsDirectives pad targets) := by
  induction targets generalizing pad with
  | nil => exact emits_nil
  | cons target targets targetsInduction =>
      exact emits_append.mpr ⟨emits_removal control target.2 rfl, targetsInduction (pad + 1)⟩

/-- Nor does a branch by selector. -/
theorem emits_selection (targets : List (Nat × Unwind)) (fallback : Nat × Unwind) (stage : Stage) :
    Emits holds (selectionDraft targets fallback stage).directives := by
  unfold selectionDraft
  split
  · exact emits_removal control _ rfl
  · exact emits_append.mpr
      ⟨emits_replicate _, emits_op.mpr ⟨control _ rfl, emits_pads control _ _⟩⟩

end

variable {assembly : Assembly} {function : Function}

namespace Site.Hosts

variable {site : Site}

/-- A parameter or a local that there is can be read. -/
theorem refers_loadOp (hosts : site.Hosts assembly function) {index : Nat}
    (there : index < site.slotCount) : (site.loadOp index).Refers assembly function := by
  unfold Site.loadOp
  split
  · next isParam =>
      rw [← hosts.signature] at isParam
      exact isParam
  · next isLocal =>
      have isLocal : index - site.signature.params.length < function.locals.length := by
        rw [hosts.locals]
        unfold Site.slotCount at there
        omega
      exact isLocal

/-- It can be replaced as well. -/
theorem refers_storeOp (hosts : site.Hosts assembly function) {index : Nat}
    (there : index < site.slotCount) : (site.storeOp index).Refers assembly function := by
  have reads := hosts.refers_loadOp there
  unfold Site.loadOp at reads
  unfold Site.storeOp
  split
  · next isParam =>
      rw [if_pos isParam] at reads
      exact reads
  · next isLocal =>
      rw [if_neg isLocal] at reads
      exact reads

end Site.Hosts

end WasmCompiler.Emission

namespace WasmCompiler

open Emission
open Bytecode (Assembly Function Op)

variable {assembly : Assembly} {function : Function} {site : Site}

/-- A jump adds nothing but control. -/
theorem Jump.emits_draft {holds : Op Nat → Prop}
    (control : ∀ op : Op Nat, op.isControl = true → holds op) {depth : Nat} (scope : Scope depth)
    (stage : Stage) (leap : Jump depth) : Emits holds (leap.draft scope stage).directives := by
  cases leap with
  | always level => exact emits_removal control _ rfl
  | ifTrue level => exact emits_conditional control _ _
  | table levels fallback => exact emits_selection control _ _ _

/-- **An instruction that is not refused** refers to what there is. -/
theorem PlainInstruction.refer_draft (hosts : site.Hosts assembly function) (base : Nat)
    (stage : Stage) {instruction : PlainInstruction}
    (allowed : instruction.violation? site = none) :
    Emits (Op.Refers assembly function) (instruction.draft site base stage).directives := by
  have single : ∀ op : Op Nat, op.Refers assembly function →
      Emits (Op.Refers assembly function) [.op op] :=
    fun op refers => List.forall_mem_singleton.mpr refers
  have permitted := (violation?_eq_none instruction).mp allowed
  cases instruction with
  | nop => exact emits_nil
  | call callee =>
      simp only [draft]
      split
      -- A call of an unknown function would add nothing, were it not refused.
      · exact emits_nil
      · refine List.forall_mem_singleton.mpr ?_
        rw [Op.Refers, hosts.signatures]
        exact permitted
  | callIndirect typeIndex =>
      simp only [draft]
      split
      · exact emits_nil
      · refine List.forall_mem_singleton.mpr ?_
        rw [Op.Refers, hosts.types]
        exact permitted
  | getLocal index => exact single _ (hosts.refers_loadOp permitted)
  | setLocal index => exact single _ (hosts.refers_storeOp permitted)
  | teeLocal index =>
      exact emits_op.mpr ⟨hosts.refers_storeOp permitted, single _ (hosts.refers_loadOp permitted)⟩
  | getGlobal index =>
      refine single _ ?_
      rw [Op.Refers, hosts.globals]
      exact permitted
  | setGlobal index =>
      refine single _ ?_
      rw [Op.Refers, hosts.globals]
      exact permitted.1
  | numeric operation =>
      exact emits_operations.mpr fun op member =>
        Op.refers_of_isComputation (operation.isComputation_of_mem_lower member)
  | _ => exact single _ trivial

/-- **Code in which nothing is refused** adds what its instructions add, and control. -/
theorem Code.emits_draft {holds : Op Nat → Prop}
    (control : ∀ op : Op Nat, op.isControl = true → holds op)
    (plain : ∀ (base : Nat) (stage : Stage) (instruction : PlainInstruction),
      instruction.violation? site = none →
      Emits holds (instruction.draft site base stage).directives)
    {depth : Nat} {code : Code depth} (allowed : code.violation? site = none) (scope : Scope depth)
    (stage : Stage) : Emits holds (code.draft site scope stage).directives := by
  induction code generalizing stage with
  | empty => exact emits_nil
  | plain offset instruction next nextInduction =>
      obtain ⟨here, onward⟩ := Option.or_eq_none_iff.mp allowed
      exact (plain _ _ _ here).andThen (nextInduction onward _ _)
  | jump offset leap next nextInduction =>
      exact (leap.emits_draft control scope stage).andThen (nextInduction allowed _ _)
  | block offset kind type body finish next bodyInduction nextInduction =>
      obtain ⟨inside, onward⟩ := Option.or_eq_none_iff.mp allowed
      cases kind with
      | block =>
          exact Emits.andThen (emits_append.mpr ⟨bodyInduction inside _ _, emits_nil⟩)
            (nextInduction onward _ _)
      | loop => exact Emits.andThen (bodyInduction inside _ _) (nextInduction onward _ _)
  | ifThen offset type arm finish next armInduction nextInduction =>
      obtain ⟨inside, onward⟩ := Option.or_eq_none_iff.mp allowed
      exact Emits.andThen
        (emits_op.mpr ⟨control _ rfl, emits_append.mpr ⟨armInduction inside _ _, emits_nil⟩⟩)
        (nextInduction onward _ _)
  | ifElse offset type arm middle otherwise finish next armInduction otherwiseInduction
      nextInduction =>
      obtain ⟨inside, others⟩ := Option.or_eq_none_iff.mp allowed
      obtain ⟨second, onward⟩ := Option.or_eq_none_iff.mp others
      refine Emits.andThen (emits_op.mpr ⟨control _ rfl, emits_append.mpr ⟨?_, ?_⟩⟩)
        (nextInduction onward _ _)
      · exact armInduction inside _ _
      · exact emits_op.mpr
          ⟨control _ rfl, emits_append.mpr ⟨otherwiseInduction second _ _, emits_nil⟩⟩

/-! ## Targets of compiled functions -/

namespace Emission

/-- The place of a label that is given one is at most at the end of the operations. -/
theorem Realizes.place_le {code : Array (Op Nat)} {place : Nat → Nat} {position : Nat}
    {directives : List Directive} (realized : Realizes code place position directives) {label : Nat}
    (marked : label ∈ marks directives) : place label ≤ position + (emitted directives).length := by
  -- A place is where its mark stands, and marks lie within what is emitted.
  induction directives generalizing position with
  | nil => cases marked
  | cons directive rest restInduction =>
      cases directive with
      | defineLabel => exact restInduction realized marked
      | markLabel other =>
          rcases List.mem_cons.mp marked with rfl | later
          · rw [realized.1]
            exact Nat.le_add_right _ _
          · exact restInduction realized.2 later
      | op op =>
          have onward := restInduction realized.2 marked
          rw [emitted, List.length_cons]
          omega
      | call callee signature =>
          have onward := restInduction realized.2 marked
          rw [emitted, List.length_cons]
          omega
      | callIndirect typeIndex signature =>
          have onward := restInduction realized.2 marked
          rw [emitted, List.length_cons]
          omega
      | _ => exact realized.elim

namespace Site

variable (site : Site) (code : Code 0)

/-- The operations of a function are those of its code, and a return. -/
theorem emitted_draft :
    emitted (site.draft code).directives =
      emitted (code.draft site .outermost ⟨0, 0, true⟩).directives ++ [.ret] := by
  rw [Site.draft, Draft.directives_andThen, emitted_append, emitted_operations]

/-- The operations of the compiled form have the places of labels for targets. -/
theorem toList_code_function :
    (site.function code).code.toList =
      (emitted (site.draft code).directives).map
        (Op.relabel (placeIn (site.draft code).directives)) := rfl

/-- An operation of the compiled form is an emitted one whose labels have got their places. -/
theorem exists_of_mem_code {op : Op Nat} (member : op ∈ (site.function code).code) :
    ∃ labelled ∈ emitted (site.draft code).directives,
      op = labelled.relabel (placeIn (site.draft code).directives) := by
  rw [← Array.mem_toList_iff, toList_code_function] at member
  obtain ⟨labelled, emits, equation⟩ := List.mem_map.mp member
  exact ⟨labelled, emits, equation.symm⟩

/-- **A property that does not depend on targets holds of all operations of the compiled form**, if
it holds of control and of what every instruction adds that is not refused. -/
theorem forall_mem_code {holds : Op Nat → Prop}
    (stable : ∀ (place : Nat → Nat) (op : Op Nat), holds op → holds (op.relabel place))
    (control : ∀ op : Op Nat, op.isControl = true → holds op)
    (plain : ∀ (base : Nat) (stage : Stage) (instruction : PlainInstruction),
      instruction.violation? site = none →
      Emits holds (instruction.draft site base stage).directives)
    (allowed : code.violation? site = none) : ∀ op ∈ (site.function code).code, holds op := by
  intro op member
  obtain ⟨labelled, emits, rfl⟩ := site.exists_of_mem_code code member
  have inside := Code.emits_draft control plain allowed .outermost ⟨0, 0, true⟩
  have whole : Emits holds (site.draft code).directives :=
    Emits.andThen inside (List.forall_mem_singleton.mpr (control .ret rfl))
  exact stable _ _ (whole labelled emits)

/-- **A label that an operation names has a place before the end of the code**, since the code ends
with a return that no label comes after. -/
theorem placeIn_lt_size {op : Op Nat} {target : Nat}
    (member : op ∈ emitted (site.draft code).directives) (names : target ∈ op.targets) :
    placeIn (site.draft code).directives target < (site.function code).code.size := by
  have disciplined := site.disciplined_draft code
  have marked := disciplined.mem_marks_of_target member names
  obtain ⟨realized, -⟩ := realizes_append.mp (Bytecode.realizes_ofDirectives site.index
    site.signature site.body.locals disciplined)
  -- The return gives no label a place, so places lie within the operations of the code.
  rw [Site.draft, Draft.directives_andThen, marks_append, marks_operations,
    List.append_nil] at marked
  have place := realized.place_le marked
  have size : (site.function code).code.size =
      (emitted (code.draft site .outermost ⟨0, 0, true⟩).directives).length + 1 := by
    rw [← Array.length_toList, toList_code_function, List.length_map, emitted_draft,
      List.length_append, List.length_singleton]
  rw [Nat.zero_add] at place
  rw [size]
  exact Nat.lt_succ_of_le place

/-- **The compiled form of code in which nothing is refused is closed.** -/
theorem closed_function (hosts : site.Hosts assembly (site.function code))
    (allowed : code.violation? site = none) : (site.function code).Closed assembly where
  ends := by
    rw [← Array.getLast?_toList, toList_code_function, emitted_draft, List.map_append,
      List.map_singleton, List.getLast?_concat]
    rfl
  targets op member target names := by
    obtain ⟨labelled, emits, rfl⟩ := site.exists_of_mem_code code member
    rw [Op.targets_relabel] at names
    obtain ⟨label, named, rfl⟩ := List.mem_map.mp names
    exact site.placeIn_lt_size code emits named
  refers := site.forall_mem_code code (fun _ _ => Op.refers_relabel.mpr)
    (fun _ => Op.refers_of_isControl)
    (fun base stage _ => PlainInstruction.refer_draft hosts base stage) allowed

end Site

/-- Every compiled form is that of some body. -/
theorem CompiledAll.exists_of_mem {module : Module} {index : Nat} {entries : List (UInt32 × Body)}
    {functions : List Function} (compiled : CompiledAll module index entries functions)
    {function : Function} (member : function ∈ functions) :
    ∃ position entry, CompiledFrom module (index + position) entry function := by
  induction entries generalizing index functions with
  | nil =>
      cases compiled
      cases member
  | cons entry entries entriesInduction =>
      obtain ⟨first, rest, rfl, here, later⟩ := compiled
      rcases List.mem_cons.mp member with rfl | member
      · exact ⟨0, entry, here⟩
      · obtain ⟨position, other, compiledOther⟩ := entriesInduction later member
        refine ⟨position + 1, other, ?_⟩
        rwa [Nat.add_assoc, Nat.add_comm 1] at compiledOther

end Emission

/-! ## Assemblies of modules -/

/-- Only the bytes of a module compile. -/
theorem exists_module_of_compile {name : String} {bytes : List UInt8}
    (compiles : compile name bytes = .ok assembly) :
    ∃ module, Binary.decodeModule bytes = .ok module := by
  cases decoded : Binary.decodeModule bytes with
  | error error =>
      rw [compile, decoded] at compiles
      cases compiles
  | ok module => exact ⟨module, rfl⟩

/-- **Every function of the assembly of a module is the compiled form of one of its bodies.** -/
theorem exists_compiledFrom {module : Module} {name : String} {bytes : List UInt8}
    (compiles : compile name bytes = .ok assembly)
    (decoded : Binary.decodeModule bytes = .ok module) (member : function ∈ assembly.functions) :
    ∃ position entry, CompiledFrom module position entry function := by
  obtain ⟨functions, -, compiled, rfl⟩ := exists_functions_of_compile compiles decoded
  have listed : function ∈ functions := by
    have same : (withFunctions (declared module name) functions).functions =
        functions.toArray := by simp [withFunctions, declared]
    rw [same] at member
    exact List.mem_toArray.mp member
  obtain ⟨position, entry, compiledFrom⟩ := compiled.exists_of_mem listed
  exact ⟨_, entry, compiledFrom⟩

/-- **The functions of the assembly of a module are closed.** -/
theorem closed_of_compile {name : String} {bytes : List UInt8}
    (compiles : compile name bytes = .ok assembly) :
    ∀ function ∈ assembly.functions, function.Closed assembly := by
  intro function member
  obtain ⟨module, decoded⟩ := exists_module_of_compile compiles
  obtain ⟨program, rfl, reads⟩ := exists_reads (Binary.wellRead_of_decodeModule decoded)
  have same := toDeclarations_of_compile compiles decoded
  have signatures := (compilesTo_of_compile compiles decoded reads).signatures
  obtain ⟨position, entry, signature, code, finish, -, -, allowed, rfl⟩ :=
    exists_compiledFrom compiles decoded member
  exact Site.closed_function _ code
    ⟨congrArg Declarations.globalCount same, congrArg Declarations.types same, signatures, rfl, rfl⟩
    allowed

end WasmCompiler
