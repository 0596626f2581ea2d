import WasmCompiler.Emission.Numeric
import WasmCompiler.Emission.Script

/-! # Emission of a function

One pass over a linked body. It follows the number of operands at each instruction, so that a
branch can discard what lies beneath the values that it carries. Code after an unconditional
transfer is dead until the enclosing block ends or its second arm starts: it is emitted, but its
branches discard nothing. -/

namespace WasmCompiler.Emission

open Bytecode (Op)

/-- What emission of a function knows from the start. -/
structure Site where
  /-- The module. -/
  module : Module
  /-- The index of the function among imported and defined ones. -/
  index : Nat
  /-- The signature of the function. -/
  signature : Signature
  /-- The body of the function. -/
  body : Body

/-- An open block. -/
structure Frame where
  /-- The position of the instruction that opened the block. -/
  opener : Nat
  /-- The number of operands when the block was entered. -/
  base : Nat
  /-- The number of values that the block leaves behind. -/
  arity : Nat
  /-- The number of values that a branch to the block carries. -/
  branchArity : Nat
  /-- Whether the block itself can be reached. -/
  live : Bool
  deriving DecidableEq

/-- What a branch removes: some operands beneath those that it carries. -/
structure Unwind where
  /-- The number of operands removed. -/
  drop : Nat
  /-- The number of operands carried. -/
  keep : Nat
  deriving DecidableEq

/-- The state of emission between two instructions. -/
structure State where
  /-- The directives so far. -/
  directives : Array Directive := #[]
  /-- The number of labels defined so far. -/
  defined : Nat := 0
  /-- The label defined last for each label of the body, the latest first. -/
  labels : List (Nat × Nat) := []
  /-- The open blocks, innermost first. -/
  frames : List Frame := []
  /-- The number of operands. -/
  height : Nat := 0
  /-- Whether the next instruction can be reached. -/
  reachable : Bool := true

/-- A step of emission. An error keeps the directives given before it. -/
abbrev Emitter := EStateM Error State

namespace Emitter

/-! ## Directives and operands -/

/-- Gives a directive. -/
def emit (directive : Directive) : Emitter Unit :=
  modify fun state => { state with directives := state.directives.push directive }

/-- Gives an operation. -/
def op (op : Op Nat) : Emitter Unit :=
  emit (.op op)

/-- Counts operands that an instruction takes; dead code may take more than there are. -/
def pop (count : Nat) : Emitter Unit :=
  modify fun state => { state with height := state.height - count }

/-- Counts operands that an instruction leaves. -/
def push (count : Nat) : Emitter Unit :=
  modify fun state => { state with height := state.height + count }

/-- Starts dead code after an unconditional transfer. -/
def transfer : Emitter Unit :=
  modify fun state =>
    { state with
      height := (state.frames.head?.map Frame.base).getD 0
      reachable := false }

/-! ## Labels -/

/-- The error for an instruction that linking would not have produced. -/
def unlinked {α : Type} (site : Site) (position : Nat) : Emitter α :=
  throw (.unlinkedInstruction site.index position (site.body.offset position))

/-- Defines a new label. -/
def defineLabel : Emitter Nat := do
  emit .defineLabel
  modifyGet fun state => (state.defined, { state with defined := state.defined + 1 })

/-- Defines a new label for a label of the body. -/
def defineFor (bodyLabel : Nat) : Emitter Nat := do
  let label ← defineLabel
  modify fun state => { state with labels := (bodyLabel, label) :: state.labels }
  return label

/-- The label defined for a label of the body, which the instruction at a position carries. -/
def labelFor (site : Site) (position bodyLabel : Nat) : Emitter Nat := do
  match (← get).labels.lookup bodyLabel with
  | some label => return label
  | none => unlinked site position

/-- The label of the block opened at a position: its end, or its start if branches repeat it. -/
def blockLabel (site : Site) (opener : Nat) : Emitter Nat :=
  match site.body.instructions[opener]? with
  | some (.block _ label _) | some (.loop _ label _) | some (.ifThen _ label _ _) =>
      labelFor site opener label
  | _ => unlinked site opener

/-! ## Blocks and branches -/

/-- Enters a block. -/
def enter (opener : Nat) (type : BlockType) (branchArity : Nat) : Emitter Unit :=
  modify fun state =>
    { state with
      frames :=
        { opener := opener
          base := state.height
          arity := type.arity
          branchArity := branchArity
          live := state.reachable } :: state.frames }

/-- The opener that a branch goes to: the second arm of a conditional block stands for its block. -/
def branchOpener (body : Body) (target : Nat) : Nat :=
  match body.instructions[target]? with
  | some (.otherwise _ opener) => opener
  | _ => target

/-- The label that a branch goes to, and what it removes on the way. -/
def destination (site : Site) (branch : Branch) : Emitter (Nat × Unwind) := do
  let opener := branchOpener site.body branch.target
  let label ← blockLabel site opener
  let state ← get
  match state.frames.find? fun frame => frame.opener == opener with
  | none => unlinked site branch.target
  | some frame =>
      let keep := frame.branchArity
      let drop := if state.reachable then state.height - (frame.base + keep) else 0
      return (label, ⟨drop, keep⟩)

/-- Removes operands, if there are any to remove. -/
def unwind (unwind : Unwind) : Emitter Unit :=
  unless unwind.drop = 0 do op (.unwind unwind.drop unwind.keep)

/-- A conditional branch: around a removal of operands when there is one. -/
def branchIf (label : Nat) (removal : Unwind) : Emitter Unit := do
  if removal.drop = 0 then op (.jumpIf label)
  else
    let skip ← defineLabel
    op (.jumpUnless skip)
    unwind removal
    op (.jump label)
    emit (.markLabel skip)

/-- Branches to a label from a place of its own, after removing operands. -/
def landingPad (pad : Nat) (target : Nat × Unwind) : Emitter Unit := do
  emit (.markLabel pad)
  unwind target.2
  op (.jump target.1)

/-- A branch by selector. If all targets remove the same operands, that is done first, beneath the
selector; otherwise each target has a place of its own that does it. -/
def branchTable (targets : List (Nat × Unwind)) (fallback : Nat × Unwind) : Emitter Unit := do
  if targets.all fun target => target.2 == fallback.2 then
    unwind ⟨fallback.2.drop, fallback.2.keep + 1⟩
    op (.switch (targets.map Prod.fst) fallback.1)
  else
    let pads ← targets.mapM fun _ => defineLabel
    let fallbackPad ← defineLabel
    op (.switch pads fallbackPad)
    (pads.zip targets).forM fun (pad, target) => landingPad pad target
    landingPad fallbackPad fallback

/-! ## Instructions -/

/-- Where a parameter or a local is kept. -/
inductive Slot where
  /-- Among the arguments. -/
  | arg (index : Nat)
  /-- Among the locals. -/
  | loc (index : Nat)

/-- The place of a parameter or a local; parameters come first. -/
def slot (site : Site) (index : UInt32) : Emitter Slot := do
  let params := site.signature.params.length
  let count := params + site.body.locals.length
  if index.toNat < params then return .arg index.toNat
  if index.toNat < count then return .loc (index.toNat - params)
  throw (.localIndexOutOfRange site.index index count)

/-- Reads a place. -/
def load : Slot → Emitter Unit
  | .arg index => op (.loadArg index)
  | .loc index => op (.loadLocal index)

/-- Replaces a place. -/
def store : Slot → Emitter Unit
  | .arg index => op (.storeArg index)
  | .loc index => op (.storeLocal index)

/-- The type of a global. -/
def globalType (site : Site) (index : UInt32) : Emitter GlobalType := do
  match site.module.globalType? index.toNat with
  | some type => return type
  | none => throw (.globalIndexOutOfRange site.index index)

/-- An access to memory. -/
def access (accessor : Accessor) (offset : UInt32) : Emitter Unit := do
  if accessor.isStore then pop 2
  else
    pop 1
    push 1
  op (.access accessor offset.toNat)

/-- An instruction without block structure. -/
def plain (site : Site) : PlainInstruction → Emitter Unit
  | .unreachable => do
      op .trap
      transfer
  | .nop => return
  | .ret => do
      op .ret
      transfer
  | .call function => do
      match site.module.signature? function.toNat with
      | none => throw (.functionIndexOutOfRange site.index function)
      | some signature =>
          pop signature.params.length
          push signature.results.length
          emit (.call function.toNat signature)
  | .callIndirect typeIndex => do
      match site.module.types[typeIndex.toNat]? with
      | none => throw (.typeIndexOutOfRange typeIndex)
      | some signature =>
          pop (signature.params.length + 1)
          push signature.results.length
          emit (.callIndirect typeIndex.toNat signature)
  | .drop => do
      pop 1
      op .pop
  | .select => do
      pop 3
      push 1
      op .select
  | .getLocal index => do
      let slot ← slot site index
      push 1
      load slot
  | .setLocal index => do
      let slot ← slot site index
      pop 1
      store slot
  | .teeLocal index => do
      let slot ← slot site index
      store slot
      load slot
  | .getGlobal index => do
      let _ ← globalType site index
      push 1
      op (.loadGlobal index.toNat)
  | .setGlobal index => do
      let type ← globalType site index
      unless type.isMutable do throw (.immutableGlobal site.index index)
      pop 1
      op (.storeGlobal index.toNat)
  | .access accessor _ offset => access accessor offset
  | .currentMemory => do
      push 1
      op .currentMemory
  | .growMemory => op .growMemory
  | .const value => do
      push 1
      op (.const value)
  | .numeric operation => do
      pop operation.operandCount
      push 1
      operation.lower.forM op

/-- The label of the second arm that starts at a position. -/
def armLabel (site : Site) (position : Nat) : Emitter Nat :=
  match site.body.instructions[position]? with
  | some (.otherwise label _) => return label
  | _ => unlinked site position

/-- Whether the block opened at a position is one that branches repeat. -/
def isLoop (body : Body) (opener : Nat) : Bool :=
  match body.instructions[opener]? with
  | some (.loop ..) => true
  | _ => false

/-- The instruction at a position. -/
def instruction (site : Site) (position : Nat) : Instruction → Emitter Unit
  | .plain instruction => plain site instruction
  | .block type label finish => do
      if finish.isNone then unlinked site position
      let _ ← defineFor label
      enter position type type.arity
  | .loop type label _ => do
      let start ← defineFor label
      emit (.markLabel start)
      enter position type 0
  | .ifThen type label finish otherwise => do
      if finish.isNone then unlinked site position
      pop 1
      let exit ← defineFor label
      match otherwise with
      | some arm =>
          let second ← defineFor (← armLabel site arm)
          op (.jumpUnless second)
      | none => op (.jumpUnless exit)
      enter position type type.arity
  | .otherwise label opener => do
      let exit ← blockLabel site opener
      let second ← labelFor site position label
      op (.jump exit)
      emit (.markLabel second)
      match (← get).frames.head? with
      | none => unlinked site position
      | some frame =>
          modify fun state => { state with height := frame.base, reachable := frame.live }
  | .finish none => op .ret
  | .finish (some opener) => do
      match (← get).frames with
      | [] => unlinked site position
      | frame :: frames =>
          modify fun state => { state with frames := frames }
          unless isLoop site.body opener do
            let exit ← blockLabel site opener
            emit (.markLabel exit)
          modify fun state =>
            { state with height := frame.base + frame.arity, reachable := frame.live }
  | .branch target => do
      let (label, removal) ← destination site target
      unwind removal
      op (.jump label)
      transfer
  | .branchIf target => do
      pop 1
      let (label, removal) ← destination site target
      branchIf label removal
  | .branchTable targets fallback => do
      pop 1
      let targets ← targets.mapM (destination site)
      let fallback ← destination site fallback
      branchTable targets fallback
      transfer

/-- Instructions in order, the first of which has the given position. -/
def instructions (site : Site) : (position : Nat) → List Instruction → Emitter Unit
  | _, [] => return
  | position, first :: rest => do
      instruction site position first
      instructions site (position + 1) rest

/-- A whole function. -/
def function (site : Site) : Emitter Unit := do
  emit (.beginFunction site.index site.signature)
  site.body.locals.forM fun type => emit (.declareLocal type)
  instructions site 0 site.body.instructions.toList
  emit .endFunction

end Emitter

/-- The script of a function. -/
def scriptOfFunction (site : Site) : Script :=
  match Emitter.function site {} with
  | .ok _ state => ⟨state.directives.toList, none⟩
  | .error error state => ⟨state.directives.toList, some error⟩

/-- The script of functions with their signature indices, the first of which has the given index. -/
def scriptOfFunctions (module : Module) : (index : Nat) → List (UInt32 × Body) → Script
  | _, [] => {}
  | index, (typeIndex, body) :: rest =>
      match module.types[typeIndex.toNat]? with
      | none => { failure := some (.typeIndexOutOfRange typeIndex) }
      | some signature =>
          (scriptOfFunction ⟨module, index, signature, body⟩).andThen
            (scriptOfFunctions module (index + 1) rest)

/-- The script of a module. -/
def script (module : Module) : Script :=
  if module.functions.length = module.bodies.length then
    Script.andThen { directives := [.declareModule module] }
      (scriptOfFunctions module module.importedFunctionCount (module.functions.zip module.bodies))
  else { failure := some (.functionCountMismatch module.functions.length module.bodies.length) }

end WasmCompiler.Emission
