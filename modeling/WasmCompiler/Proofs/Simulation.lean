import WasmCompiler.Proofs.Calls

/-! # Machines follow evaluations

A machine at the operations of balanced code does what the evaluation of the code says: it arrives
where the code ends, with the same variables and store and the same operands, or traps for the same
reason; and if the evaluation needs more loops and calls than allowed, the machine runs on for at
least as many steps.

The induction is on the loops and calls allowed, and within it on the code. Each way of building
code has its own lemma.

* **`tracks_plain`**, **`tracks_jump`**, **`tracks_block`**, **`tracks_loop`**, **`tracks_ifThen`**,
  **`tracks_ifElse`** — one for each form of code;
* **`tracked`** — machines follow evaluations. -/

namespace WasmCompiler

open Bytecode (Assembly Op)
open Emission hiding State
open Machine
open Machine.Execution

/-- **Whether a machine follows the evaluation of some code**, wherever it is situated, if it
follows the evaluation of callees and of repeated loops within some depth. -/
def Tracks (program : Program) (assembly : Assembly) (bounds : Bounds) (fuel : Nat) (call : Call)
    {depth : Nat} (tree : Code depth) : Prop :=
  ∀ (scope : Scope depth) (stage : Stage) (position goal : Nat) (running : Running),
    Situated call tree scope stage position goal → call.Runs running →
    running.height = stage.height →
    Mirrors assembly bounds call.callers (fuel + 1) (call.state running position)
      (program.evaluateWith bounds (program.evaluate bounds fuel) tree running)
      (Arrives call scope ((tree.draft call.site scope stage).ending position) goal)

variable {program : Program} {assembly : Assembly} {bounds : Bounds} {fuel : Nat} {call : Call}
  {depth : Nat} {next : Code depth}

/-! ## The end of a sequence -/

/-- At the end of a sequence the machine has arrived. -/
theorem tracks_empty : Tracks program assembly bounds fuel call (.empty : Code depth) := by
  intro scope stage position goal running situated runs height
  have exact : stage.height = goal := situated.balanced
  exact Mirrors.here ⟨runs, height.trans exact, rfl⟩

/-! ## Instructions without block structure -/

/-- Where a machine is after an instruction: after its operations if the next instruction follows,
or else at a return. -/
def Proceeds (call : Call) (instruction : PlainInstruction) (base : Nat) (stage : Stage)
    (position : Nat) (follows : Bool) (later : Running) (_ : Nat) (final : State) : Prop :=
  call.Runs later ∧
    if follows then
      instruction.isTransfer = false ∧
        later.height = (instruction.draft call.site base stage).stage.height ∧
        final = call.state later ((instruction.draft call.site base stage).ending position)
    else ∃ position, call.code[position]? = some .ret ∧ final = call.state later position

section

variable {instruction : PlainInstruction} {base position : Nat} {stage : Stage} {running : Running}

/-- The number of operands after an instruction. -/
theorem height_draft {takes leaves : Nat} {later : Running}
    (exchanges : instruction.exchange call.site.module call.site.signature.results.length =
      (takes, leaves))
    (follows : instruction.isTransfer = false) (height : running.height = stage.height)
    (enough : takes ≤ stage.height) (shifts : later.height + takes = running.height + leaves) :
    later.height = (instruction.draft call.site base stage).stage.height := by
  rw [PlainInstruction.stage_draft follows (by rw [exchanges]; exact enough), exchanges]
  simp only [Stage.exchange]
  omega

/-- Instructions that neither call nor return proceed. -/
theorem proceeds_effect (straight : instruction.isStraight = true) (runs : call.Runs running)
    (height : running.height = stage.height)
    (enough : (instruction.exchange call.site.module call.site.signature.results.length).1 ≤
      stage.height)
    (realized : Realizes call.code call.place position
      (instruction.draft call.site base stage).directives) :
    Mirrors assembly bounds call.callers (fuel + 1) (call.state running position)
      ((Evaluation.ofExecution (instruction.effect bounds) running).andThen fun _ => .ended true)
      (Proceeds call instruction base stage position) := by
  refine (PlainInstruction.mirrors_effect straight runs realized).known.andThen ?_
  rintro ⟨⟩ later steps final ⟨ended, equation⟩
  have done := ofExecution_eq_ended.mp ended
  have follows : instruction.isTransfer = false := by
    cases instruction with
    | ret => cases straight
    | unreachable => cases done
    | _ => rfl
  have shifts := instruction.shifts_effect call.site.module call.site.signature.results.length
    bounds straight _ _ _ done
  exact Mirrors.here ⟨runs.of_local (PlainInstruction.local_effect bounds straight) done, follows,
    height_draft rfl follows height enough shifts, equation⟩

/-- Calls proceed. -/
theorem proceeds_invoke (compiled : program.CompilesTo assembly) (balanced : program.Balanced)
    (tracked : program.Tracked assembly bounds fuel) {op : Op Nat} {takes : Nat}
    {callee : Execution (Nat × List Value)} {signature : Signature}
    (runs : call.Runs running) (height : running.height = stage.height)
    (enough : takes ≤ stage.height) (follows : instruction.isTransfer = false)
    (exchanges : instruction.exchange call.site.module call.site.signature.results.length =
      (takes, signature.results.length))
    (found : call.code[position]? = some op)
    (single : emitted (instruction.draft call.site base stage).directives = [op])
    (local_callee : Local callee)
    (executes : execute assembly bounds op =
      callee >>= fun (function, arguments) => pure (.call function arguments))
    (names : ∀ {later function arguments}, callee running = .ok (function, arguments) later →
      program.module.signature? function = some signature)
    (shifts : Shifts takes 0 callee) :
    Mirrors assembly bounds call.callers (fuel + 1) (call.state running position)
      ((program.invoke bounds (program.evaluate bounds fuel) callee running).andThen fun _ =>
        .ended true)
      (Proceeds call instruction base stage position) := by
  refine (mirrors_invoke compiled balanced tracked found local_callee executes names
    shifts).andThen ?_
  rintro ⟨⟩ later steps final ⟨stays, shifted, equation⟩
  refine Mirrors.here ⟨?_, follows, height_draft exchanges follows height enough shifted, ?_⟩
  · rw [Call.Runs, stays]
    exact runs
  · rw [equation, Draft.ending, single]
    rfl

/-- **Instructions without block structure** proceed. -/
theorem proceeds_plain (compiled : program.CompilesTo assembly) (balanced : program.Balanced)
    (tracked : program.Tracked assembly bounds fuel) (module : call.site.module = program.module)
    (runs : call.Runs running) (height : running.height = stage.height)
    (enough : (instruction.exchange call.site.module call.site.signature.results.length).1 ≤
      stage.height)
    (allowed : instruction.violation? call.site = none)
    (realized : Realizes call.code call.place position
      (instruction.draft call.site base stage).directives) :
    Mirrors assembly bounds call.callers (fuel + 1) (call.state running position)
      (program.plain bounds (program.evaluate bounds fuel) instruction running)
      (Proceeds call instruction base stage position) := by
  cases instruction with
  | ret => exact Mirrors.here ⟨runs, position, realized.1, rfl⟩
  | call function =>
      cases found : call.site.module.signature? function.toNat with
      | none =>
          simp only [PlainInstruction.violation?, found] at allowed
          cases allowed
      | some signature =>
          have draft : (PlainInstruction.draft call.site base stage (.call function)).directives =
              [.call function.toNat signature] := by
            simp only [PlainInstruction.draft, found]
          have exchanges : PlainInstruction.exchange call.site.module
              call.site.signature.results.length (.call function) =
                (signature.params.length, signature.results.length) := by
            simp only [PlainInstruction.exchange, found]
          rw [draft] at realized
          rw [exchanges] at enough
          rw [module] at found
          exact proceeds_invoke compiled balanced tracked runs height enough rfl exchanges
            realized.1 (by rw [draft]; rfl) (program.local_direct _) (compiled.execute_call _)
            (program.signature?_of_direct found) (program.shifts_direct found)
  | callIndirect typeIndex =>
      cases found : call.site.module.types[typeIndex.toNat]? with
      | none =>
          simp only [PlainInstruction.violation?, found] at allowed
          cases allowed
      | some signature =>
          have draft : (PlainInstruction.draft call.site base stage
              (.callIndirect typeIndex)).directives =
                [.callIndirect typeIndex.toNat signature] := by
            simp only [PlainInstruction.draft, found]
          have exchanges : PlainInstruction.exchange call.site.module
              call.site.signature.results.length (.callIndirect typeIndex) =
                (signature.params.length + 1, signature.results.length) := by
            simp only [PlainInstruction.exchange, found]
          rw [draft] at realized
          rw [exchanges] at enough
          rw [module] at found
          exact proceeds_invoke compiled balanced tracked runs height enough rfl exchanges
            realized.1 (by rw [draft]; rfl) (program.local_indirect _)
            (compiled.execute_callIndirect _) (program.signature?_of_indirect found)
            (program.shifts_indirect found)
  | _ => exact proceeds_effect rfl runs height enough realized

end

/-- **An instruction without block structure**, and what follows it. -/
theorem tracks_plain (compiled : program.CompilesTo assembly) (balanced : program.Balanced)
    (tracked : program.Tracked assembly bounds fuel) (module : call.site.module = program.module)
    {offset : Nat} {instruction : PlainInstruction}
    (sequel : Tracks program assembly bounds fuel call next) :
    Tracks program assembly bounds fuel call (.plain offset instruction next) := by
  intro scope stage position goal running situated runs height
  obtain ⟨enough, balancedNext⟩ := situated.balanced
  obtain ⟨allowed, allowedNext⟩ := Option.or_eq_none_iff.mp situated.allowed
  obtain ⟨realized, realizedNext⟩ := realizes_append.mp situated.realized
  have takes : (instruction.exchange call.site.module call.site.signature.results.length).1 ≤
      stage.height := by omega
  refine mirrors_andThen (proceeds_plain compiled balanced tracked module runs height takes
    allowed realized) ?_
  rintro follows later steps final ⟨laterRuns, proceeds⟩
  -- After a transfer nothing follows: the machine stands at a return.
  cases follows with
  | false => exact Mirrors.here ⟨laterRuns, proceeds⟩
  | true =>
      obtain ⟨follows, laterHeight, rfl⟩ := proceeds
      have known : (instruction.draft call.site scope.base stage).stage = stage.exchange _ _ :=
        PlainInstruction.stage_draft follows takes
      rw [Code.draft, Draft.ending_andThen]
      refine sequel scope _ _ goal later ⟨?_, situated.nested, ?_, ?_, allowedNext, realizedNext⟩
        laterRuns laterHeight
      · rw [known]
        exact situated.live
      · rw [known]
        simp only [Stage.exchange]
        omega
      · rw [known]
        exact balancedNext follows

/-! ## Branches -/

/-- **A branch**, and what follows it if it is not taken. -/
theorem tracks_jump {offset : Nat} {leap : Jump depth}
    (sequel : Tracks program assembly bounds fuel call next) :
    Tracks program assembly bounds fuel call (.jump offset leap next) := by
  intro scope stage position goal running situated runs height
  obtain ⟨enough, carried, balancedNext⟩ := situated.balanced
  obtain ⟨realized, realizedNext⟩ := realizes_append.mp situated.realized
  -- A block around has been entered at or below the operands of this one.
  have landings : ∀ level ∈ leap.levels,
      (scope.landing level).base + (scope.landing level).keep ≤ stage.height - leap.takes := by
    intro level listed
    have outer := situated.nested level
    have above : scope.base + (scope.landing level).keep ≤ stage.height - leap.takes :=
      carried level listed
    omega
  refine (Jump.mirrors_choose situated.live height (by omega) landings realized).known.andThen ?_
  rintro chosen later steps final ⟨ended, chooses⟩
  have done := ofExecution_eq_ended.mp ended
  have laterRuns := runs.of_local leap.local_choose done
  have shifted := leap.shifts_choose _ _ _ done
  have laterHeight : later.height = stage.height - leap.takes := by omega
  cases chosen with
  | some level =>
      obtain ⟨moved, equation⟩ := chooses
      refine Mirrors.here ⟨laterRuns, moved, ?_, equation⟩
      rw [laterHeight]
      exact landings level (Jump.mem_levels_of_choose done)
  | none =>
      cases chooses
      have follows := Jump.isTransfer_of_choose done
      obtain ⟨known, reachable⟩ :
          (leap.draft scope stage).stage.height = stage.height - leap.takes ∧
          (leap.draft scope stage).stage.reachable = stage.reachable := Jump.stage_draft follows
      rw [Code.draft, Draft.ending_andThen]
      refine (sequel scope _ _ goal later ⟨?_, situated.nested, ?_, ?_, situated.allowed,
        realizedNext⟩ laterRuns (laterHeight.trans known.symm)).weaken (Nat.sub_le _ _)
        fun _ _ _ _ arrives => arrives.after steps
      · rw [reachable]
        exact situated.live
      · rw [known]
        omega
      · rw [known]
        exact balancedNext follows

/-! ## Blocks -/

/-- Branches out of a block carry what its landing says, others what they carry outside. -/
theorem keep_inside (scope : Scope depth) (landing : Landing) :
    (fun level => ((scope.inside landing).landing level).keep) =
      Fin.cases landing.keep fun level => (scope.landing level).keep := by
  funext level
  refine Fin.cases ?_ (fun level => ?_) level <;> rfl

/-- Blocks around a block have been entered with fewer operands. -/
theorem nested_inside {scope : Scope depth} {landing : Landing}
    (nested : ∀ level, (scope.landing level).base ≤ scope.base) (above : scope.base ≤ landing.base)
    (level : Fin (depth + 1)) :
    ((scope.inside landing).landing level).base ≤ (scope.inside landing).base := by
  refine Fin.cases (Nat.le_refl _) (fun level => ?_) level
  exact Nat.le_trans (nested level) above

/-- What follows a block, entered at one stage and ended at another. -/
theorem tracks_leave (sequel : Tracks program assembly bounds fuel call next)
    {scope : Scope depth} {entered ended : Stage} {directives : List Directive}
    {arity position middle goal : Nat} (live : entered.reachable = true)
    (nested : ∀ level, (scope.landing level).base ≤ scope.base)
    (above : scope.base ≤ entered.height)
    (balancedNext : next.Balanced call.site.module call.site.signature.results.length
      (fun level => (scope.landing level).keep) scope.base (entered.height + arity) goal)
    (allowedNext : next.violation? call.site = none)
    (realizedNext : Realizes call.code call.place
      (position + (emitted (Draft.mk directives (entered.leave ended arity)).directives).length)
      (next.draft call.site scope
        (Draft.mk directives (entered.leave ended arity)).stage).directives)
    (ends : position + (emitted directives).length = middle) (later : Running)
    (runs : call.Runs later) (height : later.height = entered.height + arity) :
    Mirrors assembly bounds call.callers (fuel + 1) (call.state later middle)
      (program.evaluateWith bounds (program.evaluate bounds fuel) next later)
      (Arrives call scope ((Draft.andThen ⟨directives, entered.leave ended arity⟩
        (next.draft call.site scope)).ending position) goal) := by
  rw [Draft.ending_andThen, ← ends]
  exact sequel scope (entered.leave ended arity) _ goal later ⟨live, nested,
    Nat.le_trans above (Nat.le_add_right _ _), balancedNext, allowedNext, realizedNext⟩ runs height

/-- **A part of a block** that branches leave, and what follows the block: at the landing of those
branches, and after the operations of the part. -/
theorem mirrors_part {part : Code (depth + 1)}
    (inside : Tracks program assembly bounds fuel call part) {scope : Scope depth}
    {opened : Stage} {label base arity position ending goal : Nat} {running : Running}
    (realized : Realizes call.code call.place position
      (part.draft call.site (scope.inside ⟨label, base, arity⟩) opened).directives)
    (live : opened.reachable = true) (nested : ∀ level, (scope.landing level).base ≤ scope.base)
    (above : scope.base ≤ base) (same : opened.height = base)
    (balanced : part.Balanced call.site.module call.site.signature.results.length
      (Fin.cases arity fun level => (scope.landing level).keep) base base (base + arity))
    (allowed : part.violation? call.site = none)
    (runs : call.Runs running) (height : running.height = base)
    (landed : ∀ later, call.Runs later → later.height = base + arity →
      Mirrors assembly bounds call.callers (fuel + 1) (call.state later (call.place label))
        (program.evaluateWith bounds (program.evaluate bounds fuel) next later)
        (Arrives call scope ending goal))
    (ended : ∀ later, call.Runs later → later.height = base + arity →
      Mirrors assembly bounds call.callers (fuel + 1)
        (call.state later
          ((part.draft call.site (scope.inside ⟨label, base, arity⟩) opened).ending position))
        (program.evaluateWith bounds (program.evaluate bounds fuel) next later)
        (Arrives call scope ending goal)) :
    Mirrors assembly bounds call.callers (fuel + 1) (call.state running position)
      ((program.evaluateWith bounds (program.evaluate bounds fuel) part running).leaving
        (fun later => program.evaluateWith bounds (program.evaluate bounds fuel) next
          (later.cut running.height arity))
        (program.evaluateWith bounds (program.evaluate bounds fuel) next))
      (Arrives call scope ending goal) := by
  have situated : Situated call part (scope.inside ⟨label, base, arity⟩) opened position
      (base + arity) := by
    refine ⟨live, nested_inside nested above, Nat.le_of_eq same.symm, ?_, allowed, realized⟩
    rw [keep_inside, same]
    exact balanced
  refine mirrors_leaving (inside _ _ _ _ running situated runs (height.trans same.symm)) ?_ ended
  -- A branch has cut the operands down to those that are there at the end of the part.
  intro later laterRuns enough
  rw [height]
  exact (landed _ (laterRuns.cut _ _) (Running.height_cut enough)).weaken (Nat.sub_le _ _)
    fun _ _ _ _ arrives => arrives

/-- **A block that branches leave**, and what follows it. -/
theorem tracks_block {offset finish : Nat} {type : BlockType} {body : Code (depth + 1)}
    (inside : Tracks program assembly bounds fuel call body)
    (sequel : Tracks program assembly bounds fuel call next) :
    Tracks program assembly bounds fuel call (.block offset .block type body finish next) := by
  intro scope stage position goal running situated runs height
  obtain ⟨balancedBody, balancedNext⟩ := situated.balanced
  obtain ⟨allowedBody, allowedNext⟩ := Option.or_eq_none_iff.mp situated.allowed
  obtain ⟨realizedBlock, realizedNext⟩ := realizes_append.mp situated.realized
  obtain ⟨realizedBody, marked, -⟩ := realizes_append.mp realizedBlock
  have onward := tracks_leave sequel situated.live situated.nested situated.above balancedNext
    allowedNext realizedNext (Eq.trans (by simp [emitted]) marked.symm)
  refine mirrors_part inside realizedBody situated.live situated.nested situated.above rfl
    balancedBody allowedBody runs height onward ?_
  rw [Draft.ending, ← marked]
  exact onward

/-- **A block that branches repeat**, and what follows it. A branch to it evaluates it again with
less left of the loops and calls allowed, and the branch has taken the machine a step. -/
theorem tracks_loop (tracked : program.Tracked assembly bounds fuel)
    (module : call.site.module = program.module) {offset finish : Nat} {type : BlockType}
    {body : Code (depth + 1)} (inside : Tracks program assembly bounds fuel call body)
    (sequel : Tracks program assembly bounds fuel call next) :
    Tracks program assembly bounds fuel call (.block offset .loop type body finish next) := by
  intro scope stage position goal running situated runs height
  obtain ⟨balancedBody, balancedNext⟩ := situated.balanced
  obtain ⟨allowedBody, allowedNext⟩ := Option.or_eq_none_iff.mp situated.allowed
  obtain ⟨⟨marked, realizedBody⟩, realizedNext⟩ := realizes_append.mp situated.realized
  have onward := tracks_leave sequel situated.live situated.nested situated.above balancedNext
    allowedNext realizedNext rfl
  refine mirrors_leaving (inside (scope.inside ⟨stage.defined, stage.height, 0⟩)
    (stage.define 1) position (stage.height + type.arity) running ⟨situated.live,
      nested_inside situated.nested situated.above, Nat.le_refl _, ?_, allowedBody, realizedBody⟩
    runs height) ?_ onward
  · rw [keep_inside]
    exact balancedBody
  · intro later laterRuns enough
    rw [marked, height]
    exact tracked call depth _ scope stage position goal _ module situated (laterRuns.cut _ _)
      (Running.height_cut enough)

/-- Taking the condition of a conditional block. -/
theorem runs_of_popI32 {running later : Running} {condition : BitVec 32} {height : Nat}
    (runs : call.Runs running) (before : running.height = height) (enough : 1 ≤ height)
    (pops : popI32 running = .ok condition later) :
    call.Runs later ∧ later.height = height - 1 := by
  have := shifts_popI32 running later condition pops
  exact ⟨runs.of_local local_popI32 pops, by omega⟩

/-- **A conditional block with one arm**, and what follows it. -/
theorem tracks_ifThen {offset finish : Nat} {type : BlockType} {arm : Code (depth + 1)}
    (inside : Tracks program assembly bounds fuel call arm)
    (sequel : Tracks program assembly bounds fuel call next) :
    Tracks program assembly bounds fuel call (.ifThen offset type arm finish next) := by
  intro scope stage position goal running situated runs height
  obtain ⟨enough, empty, balancedArm, balancedNext⟩ := situated.balanced
  obtain ⟨allowedArm, allowedNext⟩ := Option.or_eq_none_iff.mp situated.allowed
  obtain ⟨⟨found, realizedBlock⟩, realizedNext⟩ := realizes_append.mp situated.realized
  obtain ⟨realizedArm, marked, -⟩ := realizes_append.mp realizedBlock
  have above : scope.base ≤ (stage.exchange 1 0).height := by
    simp only [Stage.exchange]
    omega
  have live : (stage.exchange 1 0).reachable = true := situated.live
  have onward := tracks_leave sequel live situated.nested above balancedNext allowedNext
    realizedNext (Eq.trans (by simp [emitted, Nat.add_assoc, Nat.add_comm 1]) marked.symm)
  refine mirrors_andThen (Mirrors.ofStep (step_jumpUnless found)) ?_
  rintro condition later steps final ⟨pops, -, rfl⟩
  obtain ⟨laterRuns, laterHeight⟩ := runs_of_popI32 runs height (by omega) pops
  by_cases taken : condition ≠ 0
  · simp only [if_pos taken]
    refine mirrors_part inside realizedArm live situated.nested above rfl balancedArm allowedArm
      laterRuns laterHeight onward ?_
    rw [Draft.ending, ← marked]
    exact onward
  · simp only [if_neg taken]
    refine onward later laterRuns (laterHeight.trans ?_)
    rw [empty]
    rfl

/-- **A conditional block with two arms**, and what follows it. -/
theorem tracks_ifElse {offset middle finish : Nat} {type : BlockType}
    {arm otherwise : Code (depth + 1)} (first : Tracks program assembly bounds fuel call arm)
    (second : Tracks program assembly bounds fuel call otherwise)
    (sequel : Tracks program assembly bounds fuel call next) :
    Tracks program assembly bounds fuel call
      (.ifElse offset type arm middle otherwise finish next) := by
  intro scope stage position goal running situated runs height
  obtain ⟨enough, balancedArm, balancedOther, balancedNext⟩ := situated.balanced
  obtain ⟨allowedArm, allowedRest⟩ := Option.or_eq_none_iff.mp situated.allowed
  obtain ⟨allowedOther, allowedNext⟩ := Option.or_eq_none_iff.mp allowedRest
  obtain ⟨⟨found, realizedBlock⟩, realizedNext⟩ := realizes_append.mp situated.realized
  obtain ⟨realizedArm, leaves, starts, realizedRest⟩ := realizes_append.mp realizedBlock
  obtain ⟨realizedOther, marked, -⟩ := realizes_append.mp realizedRest
  have above : scope.base ≤ (stage.exchange 1 0).height := by
    simp only [Stage.exchange]
    omega
  have live : (stage.exchange 1 0).reachable = true := situated.live
  have onward := tracks_leave sequel live situated.nested above balancedNext allowedNext
    realizedNext (Eq.trans (by
      simp only [emitted, emitted_append, List.append_nil, List.length_cons, List.length_append]
      omega) marked.symm)
  refine mirrors_andThen (Mirrors.ofStep (step_jumpUnless found)) ?_
  rintro condition later steps final ⟨pops, -, rfl⟩
  obtain ⟨laterRuns, laterHeight⟩ := runs_of_popI32 runs height (by omega) pops
  by_cases taken : condition ≠ 0
  · simp only [if_pos taken]
    refine mirrors_part first realizedArm live situated.nested above rfl balancedArm allowedArm
      laterRuns laterHeight onward fun last lastRuns lastHeight => ?_
    -- Behind the first arm there is a jump over the second one.
    exact mirrors_after (run_one (step_jump leaves))
      ((onward last lastRuns lastHeight).weaken (Nat.sub_le _ _) fun _ _ _ _ arrives => arrives)
  · simp only [if_neg taken]
    rw [starts]
    refine mirrors_part second realizedOther live situated.nested above rfl balancedOther
      allowedOther laterRuns laterHeight onward ?_
    rw [Draft.ending, ← marked]
    exact onward

/-! ## All code -/

/-- **Machines follow the evaluation of code** if they follow that of callees and of repeated
loops. -/
theorem tracks (compiled : program.CompilesTo assembly) (balanced : program.Balanced)
    (tracked : program.Tracked assembly bounds fuel) (module : call.site.module = program.module)
    (tree : Code depth) : Tracks program assembly bounds fuel call tree := by
  induction tree with
  | empty => exact tracks_empty
  | plain offset instruction next sequel =>
      exact tracks_plain compiled balanced tracked module sequel
  | jump offset leap next sequel => exact tracks_jump sequel
  | block offset kind type body finish next inside sequel =>
      cases kind with
      | block => exact tracks_block inside sequel
      | loop => exact tracks_loop tracked module inside sequel
  | ifThen offset type arm finish next inside sequel => exact tracks_ifThen inside sequel
  | ifElse offset type arm middle otherwise finish next first second sequel =>
      exact tracks_ifElse first second sequel

/-- **Machines follow evaluations.** -/
theorem tracked (compiled : program.CompilesTo assembly) (balanced : program.Balanced)
    (bounds : Bounds) (fuel : Nat) : program.Tracked assembly bounds fuel := by
  induction fuel with
  | zero =>
      intro call depth tree scope stage position goal running module situated runs height
      exact ⟨0, _, Nat.le_refl 0, rfl⟩
  | succ fuel fuelInduction =>
      intro call depth tree scope stage position goal running module situated runs height
      exact tracks compiled balanced fuelInduction module tree scope stage position goal running
        situated runs height

end WasmCompiler
