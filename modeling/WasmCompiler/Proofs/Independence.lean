import WasmCompiler.Proofs.Scripts

/-! # Functions are compiled on their own

Emission starts every function in the same state, and the assembler drops whatever function was open
when another one is opened. So a function is what its own script builds, whatever has been assembled
before and whatever comes after. This holds of every module, whether its bodies are linked or not:
the script of a function opens one function, adds code to it and closes it.

* **`Emitter.GivesCode`** — an action gives operations and labels and nothing else;
* **`Site.Builds`** — the script of a function adds one function to whatever has been assembled;
* **`Module.BuiltAt`** — a function is what the script of the body at a position builds;
* **`functions_compile_independently`** — modules that declare the same compile equal bodies to
  equal functions. -/

namespace WasmCompiler.Emission

open Bytecode (Assembler Assembly Function OpenFunction)
open Bytecode.Assembler (opening)
open Stateful

/-- Whether a directive adds to the code of a function: an operation or a label. -/
def Directive.isCode : Directive → Bool
  | .defineLabel | .markLabel _ | .op _ | .call _ _ | .callIndirect _ _ => true
  | _ => false

namespace Emitter

variable {α β : Type}

/-! ## Actions that give code -/

/-- **Whether an action gives operations and labels and nothing else**, wherever it starts. -/
def GivesCode (action : Emitter α) : Prop :=
  ∀ state later value, action state = .ok value later →
    ∃ given, later.directives.toList = state.directives.toList ++ given ∧
      ∀ directive ∈ given, directive.isCode = true

/-- An action that leaves the directives as they are. -/
theorem givesCode_of_directives {action : Emitter α}
    (same : ∀ state later value, action state = .ok value later →
      later.directives = state.directives) : GivesCode action := by
  intro state later value equation
  exact ⟨[], by rw [same state later value equation, List.append_nil], List.forall_mem_nil _⟩

/-- Giving a value adds no directives. -/
theorem givesCode_pure (value : α) : GivesCode (pure value) :=
  givesCode_of_directives fun _ _ _ equation => by
    cases equation
    rfl

/-- Nor does failing. -/
theorem givesCode_throw (error : Error) : GivesCode (throw error : Emitter α) :=
  givesCode_of_directives fun _ _ _ equation => by cases equation

/-- Nor does a look at the state. -/
theorem givesCode_get : GivesCode (get : Emitter State) :=
  givesCode_of_directives fun _ _ _ equation => by
    cases equation
    rfl

/-- Nor does a change that leaves them. -/
theorem givesCode_modify {change : State → State}
    (same : ∀ state, (change state).directives = state.directives) : GivesCode (modify change) :=
  givesCode_of_directives fun state _ _ equation => by
    cases equation
    exact same state

namespace GivesCode

/-- What both parts of a sequence give is all that the sequence gives. -/
theorem bind {first : Emitter α} {second : α → Emitter β} (start : GivesCode first)
    (onward : ∀ value, GivesCode (second value)) : GivesCode (first >>= second) := by
  intro state last result equation
  obtain ⟨value, later, starts, follows⟩ := bind_eq_ok.mp equation
  obtain ⟨given, givenEquation, givenCode⟩ := start state later value starts
  obtain ⟨more, moreEquation, moreCode⟩ := onward value later last result follows
  refine ⟨given ++ more, ?_, List.forall_mem_append.mpr ⟨givenCode, moreCode⟩⟩
  rw [moreEquation, givenEquation, List.append_assoc]

/-- A choice adds code if both sides do. -/
theorem ite {condition : Prop} [Decidable condition] {first second : Emitter α}
    (positive : GivesCode first) (negative : GivesCode second) :
    GivesCode (if condition then first else second) := by
  by_cases holds : condition
  · rw [if_pos holds]
    exact positive
  · rw [if_neg holds]
    exact negative

/-- Actions on the items of a list add code if each does. -/
theorem forM {action : α → Emitter PUnit} (items : List α)
    (each : ∀ item, GivesCode (action item)) : GivesCode (items.forM action) := by
  induction items with
  | nil => exact givesCode_pure _
  | cons item items itemsInduction => exact (each item).bind fun _ => itemsInduction

/-- So do actions whose results are kept. -/
theorem mapM {action : α → Emitter β} (items : List α)
    (each : ∀ item, GivesCode (action item)) : GivesCode (items.mapM action) := by
  induction items with
  | nil => exact givesCode_pure _
  | cons item items itemsInduction =>
      rw [List.mapM_cons]
      exact (each item).bind fun _ => itemsInduction.bind fun _ => givesCode_pure _

end GivesCode

/-- A directive of code may be added. -/
theorem givesCode_emit {directive : Directive} (code : directive.isCode = true) :
    GivesCode (emit directive) := by
  intro state later value equation
  cases equation
  exact ⟨[directive], Array.toList_push, List.forall_mem_singleton.mpr code⟩

/-- An operation is code. -/
theorem givesCode_op (operation : Bytecode.Op Nat) : GivesCode (op operation) :=
  givesCode_emit rfl

/-- Taking operands adds no directives. -/
theorem givesCode_pop (count : Nat) : GivesCode (pop count) :=
  givesCode_modify fun _ => rfl

/-- Nor does leaving operands. -/
theorem givesCode_push (count : Nat) : GivesCode (push count) :=
  givesCode_modify fun _ => rfl

/-- Nor does a transfer. -/
theorem givesCode_transfer : GivesCode transfer :=
  givesCode_modify fun _ => rfl

/-- Nor does the refusal of an instruction without a link. -/
theorem givesCode_unlinked (site : Site) (position : Nat) :
    GivesCode (unlinked site position : Emitter α) :=
  givesCode_throw _

/-! ## Labels and branches -/

/-- Defining a label is code. -/
theorem givesCode_defineLabel : GivesCode defineLabel := by
  refine (givesCode_emit rfl).bind fun _ => givesCode_of_directives fun _ _ _ equation => ?_
  cases equation
  rfl

/-- So is defining one for a block. -/
theorem givesCode_defineFor (bodyLabel : Nat) : GivesCode (defineFor bodyLabel) := by
  refine givesCode_defineLabel.bind fun label => GivesCode.bind ?_ fun _ => givesCode_pure label
  exact givesCode_modify fun _ => rfl

/-- Finding the label that stands for one of the body adds no directives. -/
theorem givesCode_labelFor (site : Site) (position bodyLabel : Nat) :
    GivesCode (labelFor site position bodyLabel) := by
  refine givesCode_get.bind fun state => ?_
  cases state.labels.lookup bodyLabel with
  | some label => exact givesCode_pure label
  | none => exact givesCode_unlinked site position

/-- Nor does finding that of a block. -/
theorem givesCode_blockLabel (site : Site) (opener : Nat) :
    GivesCode (blockLabel site opener) := by
  unfold blockLabel
  split
  · exact givesCode_labelFor site opener _
  · exact givesCode_labelFor site opener _
  · exact givesCode_labelFor site opener _
  · exact givesCode_unlinked site opener

/-- Nor does finding a destination. -/
theorem givesCode_destination (site : Site) (branch : Branch) :
    GivesCode (destination site branch) := by
  refine (givesCode_blockLabel site _).bind fun label => givesCode_get.bind fun state => ?_
  split
  · exact givesCode_unlinked site _
  · exact givesCode_pure _

/-- Removing operands adds only code. -/
theorem givesCode_unwind (removal : Unwind) : GivesCode (unwind removal) :=
  (givesCode_pure _).ite (givesCode_op _)

/-- So does a conditional branch. -/
theorem givesCode_branchIf (label : Nat) (removal : Unwind) :
    GivesCode (branchIf label removal) :=
  (givesCode_op _).ite <| givesCode_defineLabel.bind fun _ => (givesCode_op _).bind fun _ =>
    (givesCode_unwind removal).bind fun _ => (givesCode_op _).bind fun _ => givesCode_emit rfl

/-- So does a landing pad. -/
theorem givesCode_landingPad (pad : Nat) (target : Nat × Unwind) :
    GivesCode (landingPad pad target) :=
  (givesCode_emit rfl).bind fun _ => (givesCode_unwind _).bind fun _ => givesCode_op _

/-- So does a branch by selector. -/
theorem givesCode_branchTable (targets : List (Nat × Unwind)) (fallback : Nat × Unwind) :
    GivesCode (branchTable targets fallback) := by
  -- Either all targets remove the same operands, or each one has a place of its own.
  refine GivesCode.ite ((givesCode_unwind _).bind fun _ => givesCode_op _) ?_
  refine (GivesCode.mapM targets fun _ => givesCode_defineLabel).bind fun pads => ?_
  refine givesCode_defineLabel.bind fun pad => (givesCode_op _).bind fun _ => ?_
  exact (GivesCode.forM _ fun _ => givesCode_landingPad _ _).bind fun _ =>
    givesCode_landingPad pad fallback

/-! ## Instructions -/

/-- Finding a parameter or local adds no directives. -/
theorem givesCode_slot (site : Site) (index : UInt32) : GivesCode (slot site index) :=
  (givesCode_pure _).ite ((givesCode_pure _).ite (givesCode_throw _))

/-- Reading it adds only code. -/
theorem givesCode_load (place : Slot) : GivesCode (load place) := by
  cases place <;> exact givesCode_op _

/-- So does replacing it. -/
theorem givesCode_store (place : Slot) : GivesCode (store place) := by
  cases place <;> exact givesCode_op _

/-- Finding the type of a global adds no directives. -/
theorem givesCode_globalType (site : Site) (index : UInt32) :
    GivesCode (globalType site index) := by
  unfold globalType
  split
  · exact givesCode_pure _
  · exact givesCode_throw _

/-- An instruction takes operands, leaves others and adds what computes these from those. -/
theorem GivesCode.exchange {action : Emitter β} (gives : GivesCode action) (takes leaves : Nat) :
    GivesCode (do
      pop takes
      push leaves
      action) :=
  (givesCode_pop takes).bind fun _ => (givesCode_push leaves).bind fun _ => gives

/-- **An instruction without block structure adds only code.** -/
theorem givesCode_plain (site : Site) (instruction : PlainInstruction) :
    GivesCode (plain site instruction) := by
  cases instruction with
  | nop => exact givesCode_pure _
  | unreachable | ret => exact (givesCode_op _).bind fun _ => givesCode_transfer
  | call callee =>
      simp only [plain]
      split
      · exact givesCode_throw _
      · exact (givesCode_emit rfl).exchange _ _
  | callIndirect typeIndex =>
      simp only [plain]
      split
      · exact givesCode_throw _
      · exact (givesCode_emit rfl).exchange _ _
  | drop => exact (givesCode_pop 1).bind fun _ => givesCode_op _
  | currentMemory | const => exact (givesCode_push 1).bind fun _ => givesCode_op _
  | growMemory => exact givesCode_op _
  | select => exact (givesCode_op _).exchange 3 1
  | getLocal index =>
      exact (givesCode_slot site index).bind fun place => (givesCode_push 1).bind fun _ =>
        givesCode_load place
  | setLocal index =>
      exact (givesCode_slot site index).bind fun place => (givesCode_pop 1).bind fun _ =>
        givesCode_store place
  | teeLocal index =>
      exact (givesCode_slot site index).bind fun place => (givesCode_store place).bind fun _ =>
        givesCode_load place
  | getGlobal index =>
      exact (givesCode_globalType site index).bind fun _ => (givesCode_push 1).bind fun _ =>
        givesCode_op _
  | setGlobal index =>
      refine (givesCode_globalType site index).bind fun type => ?_
      have replaces : GivesCode (do
          pop 1
          op (.storeGlobal index.toNat)) := (givesCode_pop 1).bind fun _ => givesCode_op _
      exact replaces.ite ((givesCode_throw _).bind fun _ => replaces)
  | access accessor alignment offset =>
      exact ((givesCode_pop 2).bind fun _ => givesCode_op _).ite ((givesCode_op _).exchange 1 1)
  | numeric operation => exact (GivesCode.forM _ givesCode_op).exchange _ 1

/-- Finding the label of a second arm adds no directives. -/
theorem givesCode_armLabel (site : Site) (position : Nat) : GivesCode (armLabel site position) := by
  unfold armLabel
  split
  · exact givesCode_pure _
  · exact givesCode_unlinked site position

/-- Nor does entering a block. -/
theorem givesCode_enter (opener : Nat) (type : BlockType) (branchArity : Nat) :
    GivesCode (enter opener type branchArity) :=
  givesCode_modify fun _ => rfl

/-- An opener must have been linked. -/
theorem GivesCode.afterLinked {action : Emitter β} (gives : GivesCode action) (site : Site)
    (position : Nat) (finish : Option Nat) :
    GivesCode (do
      if finish.isNone then unlinked site position
      action) :=
  GivesCode.ite ((givesCode_unlinked site position).bind fun _ => gives) gives

/-- **Every instruction gives code**, whether it is linked or not. -/
theorem givesCode_instruction (site : Site) (position : Nat) (instruction : Instruction) :
    GivesCode (Emitter.instruction site position instruction) := by
  cases instruction with
  | plain instruction => exact givesCode_plain site instruction
  | block type label finish =>
      exact GivesCode.afterLinked ((givesCode_defineFor label).bind fun _ =>
        givesCode_enter position type type.arity) site position finish
  | loop type label finish =>
      exact (givesCode_defineFor label).bind fun start => (givesCode_emit rfl).bind fun _ =>
        givesCode_enter position type 0
  | ifThen type label finish otherwise =>
      refine GivesCode.afterLinked ((givesCode_pop 1).bind fun _ =>
        (givesCode_defineFor label).bind fun exit => ?_) site position finish
      cases otherwise with
      | none =>
          exact (givesCode_op _).bind fun _ => givesCode_enter position type type.arity
      | some arm =>
          exact (givesCode_armLabel site arm).bind fun second =>
            (givesCode_defineFor second).bind fun _ => (givesCode_op _).bind fun _ =>
              givesCode_enter position type type.arity
  | otherwise label opener =>
      refine (givesCode_blockLabel site opener).bind fun exit =>
        (givesCode_labelFor site position label).bind fun second => (givesCode_op _).bind fun _ =>
          (givesCode_emit rfl).bind fun _ => givesCode_get.bind fun state => ?_
      cases state.frames.head? with
      | none => exact givesCode_unlinked site position
      | some frame => exact givesCode_modify fun _ => rfl
  | finish opener =>
      cases opener with
      | none => exact givesCode_op _
      | some opener =>
          refine givesCode_get.bind fun state => ?_
          cases state.frames with
          | nil => exact givesCode_unlinked site position
          | cons frame frames =>
              have leaves : GivesCode (modifyThe State fun state =>
                  { state with height := frame.base + frame.arity, reachable := frame.live }) :=
                givesCode_modify fun _ => rfl
              have marks := (givesCode_blockLabel site opener).bind fun exit =>
                (@givesCode_emit (.markLabel exit) rfl).bind fun _ => leaves
              exact GivesCode.bind (givesCode_modify fun _ => rfl) fun _ => leaves.ite marks
  | branch target =>
      exact (givesCode_destination site target).bind fun destination =>
        (givesCode_unwind _).bind fun _ => (givesCode_op _).bind fun _ => givesCode_transfer
  | branchIf target =>
      exact (givesCode_pop 1).bind fun _ => (givesCode_destination site target).bind fun _ =>
        givesCode_branchIf _ _
  | branchTable targets fallback =>
      exact (givesCode_pop 1).bind fun _ =>
        (GivesCode.mapM targets (givesCode_destination site)).bind fun _ =>
          (givesCode_destination site fallback).bind fun _ =>
            (givesCode_branchTable _ _).bind fun _ => givesCode_transfer

/-- **Instructions in a row add only code.** -/
theorem givesCode_instructions (site : Site) (position : Nat) (instructions : List Instruction) :
    GivesCode (Emitter.instructions site position instructions) := by
  induction instructions generalizing position with
  | nil => exact givesCode_pure _
  | cons first rest restInduction =>
      exact (givesCode_instruction site position first).bind fun _ =>
        restInduction (position + 1)

end Emitter

/-! ## Scripts of functions -/

/-- **The script of a function that is not refused** opens it with its locals, adds code to it and
closes it. -/
theorem exists_code_of_script {site : Site} (succeeds : (scriptOfFunction site).failure = none) :
    ∃ code, (scriptOfFunction site).directives =
        opening site.index site.signature site.body.locals ++ code ++ [.endFunction] ∧
      ∀ directive ∈ code, directive.isCode = true := by
  unfold scriptOfFunction at succeeds ⊢
  cases equation : Emitter.function site {} with
  | error error later =>
      rw [equation] at succeeds
      cases succeeds
  | ok value later =>
      rw [Emitter.function_apply] at equation
      obtain ⟨_, middle, instructions, ends⟩ := bind_eq_ok.mp equation
      obtain ⟨code, given, isCode⟩ := Emitter.givesCode_instructions site 0 _ _ _ _ instructions
      refine ⟨code, ?_, isCode⟩
      -- The end is given after the code, which follows what opens the function.
      cases ends
      simp [given, Emitter.opened, State.advance]

end WasmCompiler.Emission

namespace WasmCompiler.Bytecode

open Emission

/-! ## Following the script of a function -/

/-- A closed function is the open one with other code. -/
theorem OpenFunction.close_eq_ok {function : OpenFunction} {closed : Function}
    (closes : function.close = .ok closed) :
    closed.index = function.index ∧ closed.signature = function.signature ∧
      closed.locals = function.locals.toList := by
  unfold OpenFunction.close at closes
  cases patched : function.code.toList.mapM (Op.mapTargets function.place) with
  | error error =>
      rw [patched] at closes
      cases closes
  | ok code =>
      rw [patched] at closes
      cases closes
      exact ⟨rfl, rfl, rfl⟩

namespace Assembler

/-- Directives one after the other can be followed exactly if both can, one after the other. -/
theorem followAll_append_eq_ok {assembler last : Assembler} {first second : List Directive} :
    assembler.followAll (first ++ second) = .ok last ↔
      ∃ middle, assembler.followAll first = .ok middle ∧ middle.followAll second = .ok last := by
  induction first generalizing assembler with
  | nil => simp [followAll]
  | cons directive rest restInduction =>
      rw [List.cons_append, followAll, followAll]
      split
      · simp
      · exact restInduction

/-- Operations and labels change the code of the open function and nothing else. -/
theorem followAll_code {directives : List Directive}
    (isCode : ∀ directive ∈ directives, directive.isCode = true) (function : OpenFunction) :
    ∃ code places, ∀ assembly, followAll ⟨assembly, some function⟩ directives =
      .ok ⟨assembly, some { function with code := code, places := places }⟩ := by
  induction directives generalizing function with
  | nil => exact ⟨function.code, function.places, fun assembly => rfl⟩
  | cons directive rest restInduction =>
      obtain ⟨here, onward⟩ := List.forall_mem_cons.mp isCode
      have step : ∃ code places, ∀ assembly, follow ⟨assembly, some function⟩ directive =
          (none, ⟨assembly, some { function with code := code, places := places }⟩) := by
        cases directive with
        | defineLabel | markLabel | op | call | callIndirect => exact ⟨_, _, fun _ => rfl⟩
        | declareModule | beginFunction | declareLocal | endFunction => cases here
      obtain ⟨code, places, follows⟩ := step
      obtain ⟨lastCode, lastPlaces, followsRest⟩ :=
        restInduction onward { function with code := code, places := places }
      refine ⟨lastCode, lastPlaces, fun assembly => ?_⟩
      rw [followAll, follows]
      exact followsRest assembly

end Assembler

end WasmCompiler.Bytecode

namespace WasmCompiler.Emission

open Bytecode (Assembler Assembly Function OpenFunction)
open Bytecode.Assembler (opening)

/-- A function is added where it is closed, unless it is dropped. -/
theorem followAll_endFunction (assembly : Assembly) (function : OpenFunction) :
    Assembler.followAll ⟨assembly, some function⟩ [.endFunction] =
      function.close.map fun closed => ⟨withFunctions assembly [closed], none⟩ := by
  simp only [Assembler.followAll, Assembler.follow, Assembler.endFunction]
  cases function.close with
  | error error => simp only [Except.map]
  | ok closed => simp [Except.map, withFunctions]

/-- **What the script of a function builds does not depend on what has been assembled**: it is one
more function, or the error that the function is dropped for. -/
theorem followAll_script {site : Site} (succeeds : (scriptOfFunction site).failure = none) :
    ∃ built : Except Error Function,
      (∀ function, built = .ok function → function.index = site.index ∧
        function.signature = site.signature ∧ function.locals = site.body.locals) ∧
      ∀ assembler : Assembler, assembler.followAll (scriptOfFunction site).directives =
        built.map fun function => ⟨withFunctions assembler.assembly [function], none⟩ := by
  obtain ⟨code, directives, isCode⟩ := exists_code_of_script succeeds
  obtain ⟨ops, places, follows⟩ := Assembler.followAll_code isCode
    { index := site.index, signature := site.signature, locals := site.body.locals.toArray }
  refine ⟨OpenFunction.close ⟨site.index, site.signature, site.body.locals.toArray, ops, places⟩,
    fun function closes => OpenFunction.close_eq_ok closes, fun assembler => ?_⟩
  -- Whatever function is open is dropped, and the locals are those of the body.
  have opens : assembler.followAll (opening site.index site.signature site.body.locals) =
      .ok ⟨assembler.assembly, some
        { index := site.index
          signature := site.signature
          locals := site.body.locals.toArray }⟩ := by
    have opened := @Assembler.followAll_opening assembler site.index site.signature
      site.body.locals [] trivial
    simpa [OpenFunction.extend, emitted, placesAfter] using opened
  rw [directives, List.append_assoc, Assembler.followAll_append opens,
    Assembler.followAll_append (follows assembler.assembly), followAll_endFunction]

/-- **Whether the script of a function builds it**: the script is that of a function that is not
refused, and adds the function to whatever has been assembled. -/
structure Site.Builds (site : Site) (function : Function) : Prop where
  /-- Nothing is refused. -/
  succeeds : (scriptOfFunction site).failure = none
  /-- The function is added. -/
  adds : ∀ assembler : Assembler, assembler.followAll (scriptOfFunction site).directives =
    .ok ⟨withFunctions assembler.assembly [function], none⟩

/-- A script that can be followed builds a function. -/
theorem Site.exists_builds {site : Site} (succeeds : (scriptOfFunction site).failure = none)
    {assembler later : Assembler}
    (follows : assembler.followAll (scriptOfFunction site).directives = .ok later) :
    ∃ function, site.Builds function ∧
      later = ⟨withFunctions assembler.assembly [function], none⟩ := by
  obtain ⟨built, -, adds⟩ := followAll_script succeeds
  cases built with
  | error error =>
      rw [adds] at follows
      cases follows
  | ok function =>
      rw [adds] at follows
      cases follows
      exact ⟨function, ⟨succeeds, adds⟩, rfl⟩

namespace Site.Builds

variable {site : Site} {function : Function}

/-- A script builds only one function. -/
theorem unique (builds : site.Builds function) {other : Function} (again : site.Builds other) :
    function = other := by
  have same := (builds.adds (.ofName "")).symm.trans (again.adds (.ofName ""))
  simpa [withFunctions, Assembler.ofName] using same

/-- It has the index and the signature of the site and the locals of the body. -/
theorem heads (builds : site.Builds function) : function.index = site.index ∧
    function.signature = site.signature ∧ function.locals = site.body.locals := by
  obtain ⟨built, heads, adds⟩ := followAll_script builds.succeeds
  refine heads function ?_
  have same := (adds (.ofName "")).symm.trans (builds.adds (.ofName ""))
  cases built with
  | error error => cases same
  | ok other => simpa [Except.map, withFunctions, Assembler.ofName] using same

end Site.Builds

/-! ## Modules -/

/-- **The script of functions that can be followed** adds what the script of each of them builds. -/
theorem exists_built_of_followAll {module : Module} {index : Nat}
    {entries : List (UInt32 × Body)} {assembler later : Assembler}
    (succeeds : (scriptOfFunctions module index entries).failure = none)
    (follows : assembler.followAll (scriptOfFunctions module index entries).directives =
      .ok later) :
    ∃ functions, later.assembly = withFunctions assembler.assembly functions ∧
      functions.length = entries.length ∧
      ∀ position entry, entries[position]? = some entry → ∃ signature function,
        module.types[entry.1.toNat]? = some signature ∧ functions[position]? = some function ∧
          Site.Builds ⟨module, index + position, signature, entry.2⟩ function := by
  induction entries generalizing index assembler with
  | nil =>
      cases follows
      exact ⟨[], (withFunctions_nil _).symm, rfl, fun _ _ found => nomatch found⟩
  | cons entry rest restInduction =>
      obtain ⟨typeIndex, body⟩ := entry
      rw [scriptOfFunctions] at succeeds follows
      cases declared : module.types[typeIndex.toNat]? with
      | none =>
          rw [declared] at succeeds
          cases succeeds
      | some signature =>
          simp only [declared] at succeeds follows
          cases failure : (scriptOfFunction ⟨module, index, signature, body⟩).failure with
          | some error =>
              rw [Script.andThen, failure] at succeeds
              simp only [failure] at succeeds
              cases succeeds
          | none =>
              rw [Script.andThen, failure] at succeeds follows
              obtain ⟨middle, first, onward⟩ := Assembler.followAll_append_eq_ok.mp follows
              obtain ⟨function, builds, rfl⟩ := Site.exists_builds failure first
              obtain ⟨functions, last, length, each⟩ := restInduction succeeds onward
              refine ⟨function :: functions, ?_, congrArg Nat.succ length, ?_⟩
              · rw [last, withFunctions_withFunctions]
                rfl
              · intro position entry found
                cases position with
                | zero =>
                    cases found
                    exact ⟨signature, function, declared, rfl, builds⟩
                | succ position =>
                    have later := each position entry found
                    rwa [Nat.add_assoc, Nat.add_comm 1] at later

end WasmCompiler.Emission

namespace WasmCompiler

open Bytecode (Assembler Assembly Function)
open Emission

/-- **Whether a function is built from the body at a position** of a module, by the script of that
body alone. -/
def Module.BuiltAt (module : Module) (position : Nat) (function : Function) : Prop :=
  ∃ typeIndex signature body, module.functions[position]? = some typeIndex ∧
    module.types[typeIndex.toNat]? = some signature ∧ module.bodies[position]? = some body ∧
    Site.Builds ⟨module, module.importedFunctionCount + position, signature, body⟩ function

/-- **Whether an assembly is that of a module**: it has the declarations of the module, and its
functions are built from the bodies, one from each. -/
structure Module.BuiltInto (module : Module) (assembly : Assembly) : Prop where
  /-- The declarations are those of the module. -/
  declarations : assembly.toDeclarations = module.toDeclarations
  /-- There is a body for each signature index. -/
  counts : module.functions.length = module.bodies.length
  /-- There is a function for each body. -/
  size : assembly.functions.size = module.bodies.length
  /-- Each function is built from the body at its position. -/
  builds : ∀ position function, assembly.functions[position]? = some function →
    module.BuiltAt position function

/-- A script that can be assembled does not fail and can be followed to its end. -/
theorem Bytecode.assemble_eq_ok {name : String} {script : Script} {assembly : Assembly}
    (assembles : assemble name script = .ok assembly) :
    script.failure = none ∧
      ∃ later, (Assembler.ofName name).followAll script.directives = .ok later ∧
        later.assembly = assembly := by
  unfold assemble at assembles
  cases follows : (Assembler.ofName name).followAll script.directives with
  | error error =>
      rw [follows] at assembles
      cases assembles
  | ok later =>
      rw [follows] at assembles
      cases failure : script.failure with
      | some error =>
          rw [failure] at assembles
          cases assembles
      | none =>
          rw [failure] at assembles
          cases assembles
          exact ⟨rfl, later, rfl, rfl⟩

/-- **Every module that compiles** is built into its assembly. -/
theorem Module.builtInto_of_compile {module : Module} {name : String} {assembly : Assembly}
    (compiles : module.compile name = .ok assembly) : module.BuiltInto assembly := by
  obtain ⟨succeeds, later, follows, rfl⟩ := Bytecode.assemble_eq_ok compiles
  unfold script at succeeds follows
  split at succeeds
  · next counts =>
      rw [if_pos counts] at follows
      -- The declarations come first, then one function after the other.
      obtain ⟨middle, declares, follows⟩ := Assembler.followAll_append_eq_ok.mp follows
      cases declares
      obtain ⟨functions, assembled, length, each⟩ := exists_built_of_followAll succeeds follows
      have listed : later.assembly.functions = functions.toArray := by
        rw [assembled]
        simp [withFunctions, Assembler.declareModule, Assembler.ofName]
      rw [List.length_zip, counts, Nat.min_self] at length
      refine ⟨congrArg Assembly.toDeclarations assembled, counts, ?_, ?_⟩
      · rw [listed, List.size_toArray, length]
      · intro position function found
        rw [listed, List.getElem?_toArray] at found
        have inside : position < module.bodies.length :=
          length ▸ (List.getElem?_eq_some_iff.mp found).1
        have typed := List.getElem?_eq_getElem (counts ▸ inside)
        have bodied := List.getElem?_eq_getElem inside
        have paired : (module.functions.zip module.bodies)[position]? = some (_, _) :=
          List.getElem?_zip_eq_some.mpr ⟨typed, bodied⟩
        obtain ⟨signature, other, declared, again, builds⟩ := each position _ paired
        rw [found] at again
        cases again
        exact ⟨_, signature, _, typed, declared, bodied, builds⟩
  · cases succeeds

/-- **Whether modules declare the same** as far as function bodies can refer to it: the signatures,
the imports, the signature index of each function and the types of the globals. -/
structure Module.SameSpaces (first second : Module) : Prop where
  /-- The signatures. -/
  types : first.types = second.types
  /-- The imports. -/
  imports : first.imports = second.imports
  /-- The signature index of each function. -/
  functions : first.functions = second.functions
  /-- The types of the globals. -/
  globals : first.globals.map Global.type = second.globals.map Global.type

namespace Module.SameSpaces

variable {first second : Module} (same : first.SameSpaces second)

include same

/-- As many functions are imported. -/
theorem importedFunctionCount : first.importedFunctionCount = second.importedFunctionCount := by
  simp only [Declarations.importedFunctionCount, Declarations.importedFunctionTypes, same.imports]

/-- Every function index has the same signature. -/
theorem signature? (index : Nat) : first.signature? index = second.signature? index := by
  simp only [Module.signature?, Module.functionType?, Declarations.importedFunctionTypes,
    same.types, same.imports, same.functions]

/-- Every global index has the same type. -/
theorem globalType? (index : Nat) : first.globalType? index = second.globalType? index := by
  simp only [Declarations.globalType?, Declarations.importedGlobalTypes, same.imports,
    same.globals]

/-! ## Emission in modules that declare the same -/

variable (index : Nat) (signature : Signature) (body : Body)

/-- An instruction without block structure is emitted in the same way. -/
theorem plain (instruction : PlainInstruction) :
    Emitter.plain ⟨first, index, signature, body⟩ instruction =
      Emitter.plain ⟨second, index, signature, body⟩ instruction := by
  have global (global : UInt32) : Emitter.globalType ⟨first, index, signature, body⟩ global =
      Emitter.globalType ⟨second, index, signature, body⟩ global := by
    simp only [Emitter.globalType, same.globalType?]
  cases instruction with
  | call callee => simp only [Emitter.plain, same.signature?]
  | callIndirect typeIndex => simp only [Emitter.plain, same.types]
  | getGlobal index => simp only [Emitter.plain, global]
  | setGlobal index => simp only [Emitter.plain, global]
  | _ => rfl

/-- **Instructions in a row are emitted in the same way.** -/
theorem instructions (position : Nat) (instructions : List Instruction) :
    Emitter.instructions ⟨first, index, signature, body⟩ position instructions =
      Emitter.instructions ⟨second, index, signature, body⟩ position instructions := by
  induction instructions generalizing position with
  | nil => rfl
  | cons instruction rest restInduction =>
      have here : Emitter.instruction ⟨first, index, signature, body⟩ position instruction =
          Emitter.instruction ⟨second, index, signature, body⟩ position instruction := by
        cases instruction with
        | plain instruction => exact same.plain index signature body instruction
        | finish opener => cases opener <;> rfl
        | _ => rfl
      rw [Emitter.instructions, Emitter.instructions, here, restInduction]

/-- **A function has the same script** in modules that declare the same. -/
theorem script : scriptOfFunction ⟨first, index, signature, body⟩ =
    scriptOfFunction ⟨second, index, signature, body⟩ := by
  rw [scriptOfFunction, scriptOfFunction, Emitter.function_apply, Emitter.function_apply]
  simp only [same.instructions index signature body]
  rfl

end Module.SameSpaces

/-- **A body builds the same function at the same position** of modules that declare the same. -/
theorem Module.BuiltAt.unique {first second : Module} (same : first.SameSpaces second)
    {position : Nat} (sameBody : first.bodies[position]? = second.bodies[position]?)
    {function other : Function} (built : first.BuiltAt position function)
    (again : second.BuiltAt position other) : function = other := by
  obtain ⟨typeIndex, signature, body, typed, declared, bodied, builds⟩ := built
  obtain ⟨otherIndex, otherSignature, otherBody, otherTyped, otherDeclared, otherBodied,
    otherBuilds⟩ := again
  rw [same.functions, otherTyped] at typed
  rw [sameBody, otherBodied] at bodied
  cases typed
  cases bodied
  rw [same.types, otherDeclared] at declared
  cases declared
  -- Both are built by one script, since the site differs in the module only.
  rw [← same.importedFunctionCount] at otherBuilds
  refine builds.unique ⟨?_, ?_⟩
  · rw [same.script]
    exact otherBuilds.succeeds
  · rw [same.script]
    exact otherBuilds.adds

/-- **Function bodies are compiled independently of each other.** If two modules with the same
signatures, imports, signature indices of functions and types of globals both compile, and their
bodies at some position are equal, then the compiled functions at this position are equal: index,
signature, locals and code. -/
theorem functions_compile_independently {first second : Module} (same : first.SameSpaces second)
    {firstName secondName : String} {firstAssembly secondAssembly : Assembly}
    (compiles : first.compile firstName = .ok firstAssembly)
    (secondCompiles : second.compile secondName = .ok secondAssembly) {position : Nat}
    (sameBody : first.bodies[position]? = second.bodies[position]?) :
    firstAssembly.functions[position]? = secondAssembly.functions[position]? := by
  have built := Module.builtInto_of_compile compiles
  have secondBuilt := Module.builtInto_of_compile secondCompiles
  have sizes : firstAssembly.functions.size = secondAssembly.functions.size := by
    rw [built.size, secondBuilt.size, ← built.counts, ← secondBuilt.counts, same.functions]
  by_cases inside : position < firstAssembly.functions.size
  · have found := Array.getElem?_eq_getElem inside
    have secondFound := Array.getElem?_eq_getElem (sizes ▸ inside)
    rw [found, secondFound, (built.builds _ _ found).unique same sameBody
      (secondBuilt.builds _ _ secondFound)]
  · rw [Array.getElem?_eq_none (Nat.not_lt.mp inside),
      Array.getElem?_eq_none (sizes ▸ Nat.not_lt.mp inside)]

/-- A body that leaves a block if its argument is not zero, and traps if it is. -/
def guardBody : Body :=
  (Code.block 10 .block none
    (.plain 12 (.getLocal 0)
      (.jump 14 (.ifTrue ⟨0, Nat.one_pos⟩) (.plain 16 .unreachable .empty))) 17
    .empty).link [] 18

/-- A module with a first function that repeats a block. -/
def loopingFirst : Module where
  types := [⟨[.i32], []⟩]
  functions := [0, 0]
  bodies := [(Code.block 2 .loop none (.jump 4 (.always ⟨0, Nat.one_pos⟩) .empty) 6
    .empty).link [.i64] 7, guardBody]

/-- A module with a first function that does nothing, and with an export. -/
def idleFirst : Module where
  types := [⟨[.i32], []⟩]
  functions := [0, 0]
  exports := [⟨"guard", .function 1⟩]
  bodies := [Code.empty.link [] 1, guardBody]

/-- The function that the body is compiled to, after a function of the same signature. -/
def guardFunction : Function where
  index := 1
  signature := ⟨[.i32], []⟩
  locals := []
  code := #[.loadArg 0, .jumpIf 3, .trap, .ret]

/-- The label of the block in the first function makes no difference to the second one. -/
theorem functions_compile_independently_guard :
    ∃ looping idle, loopingFirst.compile "looping" = .ok looping ∧
      idleFirst.compile "idle" = .ok idle ∧
      looping.functions = #[⟨0, ⟨[.i32], []⟩, [.i64], #[.jump 0, .ret]⟩, guardFunction] ∧
      idle.functions[1]? = some guardFunction := by
  have same : loopingFirst.SameSpaces idleFirst := ⟨rfl, rfl, rfl, rfl⟩
  have looping : loopingFirst.compile "looping" = .ok
      { name := "looping"
        types := [⟨[.i32], []⟩]
        functions := #[⟨0, ⟨[.i32], []⟩, [.i64], #[.jump 0, .ret]⟩, guardFunction] } := rfl
  have idle : idleFirst.compile "idle" = .ok
      { name := "idle"
        types := [⟨[.i32], []⟩]
        exports := [⟨"guard", .function 1⟩]
        functions := #[⟨0, ⟨[.i32], []⟩, [], #[.ret]⟩, guardFunction] } := rfl
  have second := @functions_compile_independently _ _ same _ _ _ _ looping idle 1 rfl
  exact ⟨_, _, looping, idle, rfl, second.symm⟩

end WasmCompiler
