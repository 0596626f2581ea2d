import WasmCompiler.Body.Code
import WasmCompiler.Emission.Function

/-! # Drafts of structured code

What emission gives for a sequence of structured code, as a function of the code, of the blocks
around it and of what is known at its start. Nothing is looked up by position: the blocks around are
a stack of landings, and the number of operands is passed along.

* **`Code.draft`** — the directives of a sequence, and what is known after it;
* **`Code.violation?`** — the first instruction of a sequence that emission refuses. -/

namespace WasmCompiler

open Bytecode (Op)

namespace Emission

/-! ## Stages and landings -/

/-- What emission knows between two instructions. -/
structure Stage where
  /-- The number of labels defined so far. -/
  defined : Nat
  /-- The number of operands. -/
  height : Nat
  /-- Whether the next instruction can be reached. -/
  reachable : Bool
  deriving DecidableEq

namespace Stage

/-- The stage after operands have been taken and others left. -/
def exchange (stage : Stage) (takes leaves : Nat) : Stage :=
  { stage with height := stage.height - takes + leaves }

/-- The stage after new labels. -/
def define (stage : Stage) (count : Nat) : Stage :=
  { stage with defined := stage.defined + count }

/-- The stage of the dead code after a transfer inside a block. -/
def transfer (stage : Stage) (base : Nat) : Stage :=
  { stage with height := base, reachable := false }

/-- The stage after a block or an arm that was entered at one stage and ended at another. -/
def leave (entered ended : Stage) (arity : Nat) : Stage :=
  { ended with height := entered.height + arity, reachable := entered.reachable }

end Stage

/-- Where branches to a block land. -/
structure Landing where
  /-- The label of the block: its end, or its start if branches repeat it. -/
  label : Nat
  /-- The number of operands when the block was entered. -/
  base : Nat
  /-- The number of operands that branches carry. -/
  keep : Nat
  deriving DecidableEq

/-- The landings of `depth` enclosing blocks. -/
inductive Scope : (depth : Nat) → Type where
  /-- Outside every block. -/
  | outermost : Scope 0
  /-- Inside one more block. -/
  | inside {depth : Nat} (landing : Landing) (outer : Scope depth) : Scope (depth + 1)

namespace Scope

/-- The landing of the block that is `level` levels out from the innermost one. -/
def landing : {depth : Nat} → Scope depth → (level : Fin depth) → Landing
  | _ + 1, .inside landing _, ⟨0, _⟩ => landing
  | _ + 1, .inside _ outer, ⟨level + 1, below⟩ =>
      outer.landing ⟨level, Nat.lt_of_succ_lt_succ below⟩

/-- The number of operands when the innermost block was entered. -/
def base : {depth : Nat} → Scope depth → Nat
  | _, .outermost => 0
  | _, .inside landing _ => landing.base

end Scope

/-! ## Drafts -/

/-- Directives and the stage after them. -/
structure Draft where
  /-- The directives in order. -/
  directives : List Directive
  /-- What is known after them. -/
  stage : Stage
  deriving DecidableEq

namespace Draft

/-- A draft that goes on with another one. -/
def andThen (first : Draft) (second : Stage → Draft) : Draft :=
  ⟨first.directives ++ (second first.stage).directives, (second first.stage).stage⟩

/-- A draft that goes on with another one has the directives of both in a row. -/
@[simp] theorem directives_andThen (first : Draft) (second : Stage → Draft) :
    (first.andThen second).directives =
      first.directives ++ (second first.stage).directives := rfl

/-- What is known after it is what is known after the other one. -/
@[simp] theorem stage_andThen (first : Draft) (second : Stage → Draft) :
    (first.andThen second).stage = (second first.stage).stage := rfl

end Draft

/-- The directives of operations. -/
def operations (ops : List (Op Nat)) : List Directive :=
  ops.map .op

/-! ## Branches -/

/-- What a branch to a landing removes at a stage. -/
def Landing.removal (landing : Landing) (stage : Stage) : Unwind :=
  ⟨if stage.reachable then stage.height - (landing.base + landing.keep) else 0, landing.keep⟩

/-- The label that a branch to a landing goes to, and what it removes. -/
def Landing.target (landing : Landing) (stage : Stage) : Nat × Unwind :=
  (landing.label, landing.removal stage)

/-- The operations that remove operands. -/
def Unwind.operations (unwind : Unwind) : List (Op Nat) :=
  if unwind.drop = 0 then [] else [.unwind unwind.drop unwind.keep]

/-- The draft of a conditional branch. -/
def conditionalDraft (target : Nat × Unwind) (stage : Stage) : Draft :=
  if target.2.drop = 0 then ⟨[.op (.jumpIf target.1)], stage⟩
  else
    ⟨.defineLabel :: .op (.jumpUnless stage.defined) ::
        (operations (target.2.operations ++ [.jump target.1]) ++ [.markLabel stage.defined]),
      stage.define 1⟩

/-- The directives of a landing pad. -/
def padDirectives (pad : Nat) (target : Nat × Unwind) : List Directive :=
  .markLabel pad :: operations (target.2.operations ++ [.jump target.1])

/-- The directives of landing pads, the first of which has the given label. -/
def padsDirectives : (pad : Nat) → List (Nat × Unwind) → List Directive
  | _, [] => []
  | pad, target :: targets => padDirectives pad target ++ padsDirectives (pad + 1) targets

/-- One more landing pad at the end. -/
theorem padsDirectives_concat (pad : Nat) (targets : List (Nat × Unwind)) (last : Nat × Unwind) :
    padsDirectives pad (targets ++ [last]) =
      padsDirectives pad targets ++ padDirectives (pad + targets.length) last := by
  induction targets generalizing pad with
  | nil => simp [padsDirectives]
  | cons target targets targetsInduction =>
      rw [List.cons_append, padsDirectives, padsDirectives, targetsInduction, List.append_assoc,
        List.length_cons, Nat.add_assoc, Nat.add_comm 1]

/-- The draft of a branch by selector. -/
def selectionDraft (targets : List (Nat × Unwind)) (fallback : Nat × Unwind) (stage : Stage) :
    Draft :=
  if targets.all fun target => target.2 == fallback.2 then
    ⟨operations
        (Unwind.operations ⟨fallback.2.drop, fallback.2.keep + 1⟩ ++
          [.switch (targets.map Prod.fst) fallback.1]),
      stage⟩
  else
    ⟨List.replicate (targets.length + 1) .defineLabel ++
        .op (.switch (List.range' stage.defined targets.length) (stage.defined + targets.length)) ::
          padsDirectives stage.defined (targets ++ [fallback]),
      stage.define (targets.length + 1)⟩

end Emission

open Emission

/-- The draft of a jump. -/
def Jump.draft {depth : Nat} (scope : Scope depth) (stage : Stage) : Jump depth → Draft
  | .always level =>
      let target := (scope.landing level).target stage
      ⟨operations (target.2.operations ++ [.jump target.1]), stage.transfer scope.base⟩
  | .ifTrue level =>
      let popped := stage.exchange 1 0
      conditionalDraft ((scope.landing level).target popped) popped
  | .table levels fallback =>
      let popped := stage.exchange 1 0
      let selection := selectionDraft (levels.map fun level => (scope.landing level).target popped)
        ((scope.landing fallback).target popped) popped
      ⟨selection.directives, selection.stage.transfer scope.base⟩

/-! ## Instructions without block structure -/

namespace Emission.Site

variable (site : Site)

/-- The number of parameters and locals. -/
def slotCount : Nat :=
  site.signature.params.length + site.body.locals.length

/-- The operation that reads a parameter or a local. -/
def loadOp (index : Nat) : Op Nat :=
  if index < site.signature.params.length then .loadArg index
  else .loadLocal (index - site.signature.params.length)

/-- The operation that replaces a parameter or a local. -/
def storeOp (index : Nat) : Op Nat :=
  if index < site.signature.params.length then .storeArg index
  else .storeLocal (index - site.signature.params.length)

end Emission.Site

namespace PlainInstruction

/-- **Why emission refuses an instruction**, if it does. -/
def violation? (site : Site) : PlainInstruction → Option Error
  | .call function =>
      match site.module.signature? function.toNat with
      | some _ => none
      | none => some (.functionIndexOutOfRange site.index function)
  | .callIndirect typeIndex =>
      match site.module.types[typeIndex.toNat]? with
      | some _ => none
      | none => some (.typeIndexOutOfRange typeIndex)
  | .getLocal index | .setLocal index | .teeLocal index =>
      if index.toNat < site.slotCount then none
      else some (.localIndexOutOfRange site.index index site.slotCount)
  | .getGlobal index =>
      match site.module.globalType? index.toNat with
      | some _ => none
      | none => some (.globalIndexOutOfRange site.index index)
  | .setGlobal index =>
      match site.module.globalType? index.toNat with
      | some type => if type.isMutable then none else some (.immutableGlobal site.index index)
      | none => some (.globalIndexOutOfRange site.index index)
  | _ => none

/-- **The draft of an instruction** that is not refused, inside a block entered with `base`
operands. -/
def draft (site : Site) (base : Nat) (stage : Stage) : PlainInstruction → Draft
  | .unreachable => ⟨[.op .trap], stage.transfer base⟩
  | .nop => ⟨[], stage⟩
  | .ret => ⟨[.op .ret], stage.transfer base⟩
  | .call function =>
      match site.module.signature? function.toNat with
      | none => ⟨[], stage⟩
      | some signature =>
          ⟨[.call function.toNat signature],
            stage.exchange signature.params.length signature.results.length⟩
  | .callIndirect typeIndex =>
      match site.module.types[typeIndex.toNat]? with
      | none => ⟨[], stage⟩
      | some signature =>
          ⟨[.callIndirect typeIndex.toNat signature],
            stage.exchange (signature.params.length + 1) signature.results.length⟩
  | .drop => ⟨[.op .pop], stage.exchange 1 0⟩
  | .select => ⟨[.op .select], stage.exchange 3 1⟩
  | .getLocal index => ⟨[.op (site.loadOp index.toNat)], stage.exchange 0 1⟩
  | .setLocal index => ⟨[.op (site.storeOp index.toNat)], stage.exchange 1 0⟩
  | .teeLocal index =>
      ⟨[.op (site.storeOp index.toNat), .op (site.loadOp index.toNat)], stage⟩
  | .getGlobal index => ⟨[.op (.loadGlobal index.toNat)], stage.exchange 0 1⟩
  | .setGlobal index => ⟨[.op (.storeGlobal index.toNat)], stage.exchange 1 0⟩
  | .access accessor _ offset =>
      ⟨[.op (.access accessor offset.toNat)],
        if accessor.isStore then stage.exchange 2 0 else stage.exchange 1 1⟩
  | .currentMemory => ⟨[.op .currentMemory], stage.exchange 0 1⟩
  | .growMemory => ⟨[.op .growMemory], stage⟩
  | .const value => ⟨[.op (.const value)], stage.exchange 0 1⟩
  | .numeric operation =>
      ⟨operations operation.lower, stage.exchange operation.operandCount 1⟩

end PlainInstruction

/-! ## Sequences -/

namespace Code

/-- **The first instruction of a sequence that emission refuses**, by its error. -/
def violation? (site : Site) : {depth : Nat} → Code depth → Option Error
  | _, .empty => none
  | _, .plain _ instruction next => (instruction.violation? site).or (next.violation? site)
  | _, .jump _ _ next => next.violation? site
  | _, .block _ _ _ body _ next => (body.violation? site).or (next.violation? site)
  | _, .ifThen _ _ arm _ next => (arm.violation? site).or (next.violation? site)
  | _, .ifElse _ _ arm _ otherwise _ next =>
      (arm.violation? site).or ((otherwise.violation? site).or (next.violation? site))

/-- **The draft of a sequence** that is not refused. -/
def draft (site : Site) : {depth : Nat} → Code depth → Scope depth → Stage → Draft
  | _, .empty, _, stage => ⟨[], stage⟩
  | _, .plain _ instruction next, scope, stage =>
      (instruction.draft site scope.base stage).andThen (next.draft site scope)
  | _, .jump _ leap next, scope, stage => (leap.draft scope stage).andThen (next.draft site scope)
  | _, .block _ .block type body _ next, scope, stage =>
      let landing : Landing := ⟨stage.defined, stage.height, type.arity⟩
      let inner := body.draft site (scope.inside landing) (stage.define 1)
      Draft.andThen
        ⟨.defineLabel :: (inner.directives ++ [.markLabel landing.label]),
          stage.leave inner.stage type.arity⟩
        (next.draft site scope)
  | _, .block _ .loop type body _ next, scope, stage =>
      let landing : Landing := ⟨stage.defined, stage.height, 0⟩
      let inner := body.draft site (scope.inside landing) (stage.define 1)
      Draft.andThen
        ⟨.defineLabel :: .markLabel landing.label :: inner.directives,
          stage.leave inner.stage type.arity⟩
        (next.draft site scope)
  | _, .ifThen _ type arm _ next, scope, stage =>
      let popped := stage.exchange 1 0
      let landing : Landing := ⟨stage.defined, popped.height, type.arity⟩
      let inner := arm.draft site (scope.inside landing) (popped.define 1)
      Draft.andThen
        ⟨.defineLabel :: .op (.jumpUnless landing.label) ::
            (inner.directives ++ [.markLabel landing.label]),
          popped.leave inner.stage type.arity⟩
        (next.draft site scope)
  | _, .ifElse _ type arm _ otherwise _ next, scope, stage =>
      let popped := stage.exchange 1 0
      let landing : Landing := ⟨stage.defined, popped.height, type.arity⟩
      let second := stage.defined + 1
      let inner := arm.draft site (scope.inside landing) (popped.define 2)
      let other := otherwise.draft site (scope.inside landing) (popped.leave inner.stage 0)
      Draft.andThen
        ⟨.defineLabel :: .defineLabel :: .op (.jumpUnless second) ::
            (inner.directives ++ .op (.jump landing.label) :: .markLabel second ::
              (other.directives ++ [.markLabel landing.label])),
          popped.leave other.stage type.arity⟩
        (next.draft site scope)

end Code

end WasmCompiler
