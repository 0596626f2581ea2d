import WasmCompiler.Proofs.Drafts

/-! # Labels of drafts

A draft defines labels, gives them places and branches to them. It does so in good order: a label is
defined before it is used or given a place, and every label that the draft defines gets exactly one
place in it.

* **`Orderly`** — labels are defined before they occur;
* **`Disciplined`** — moreover those that a draft defines get one place each;
* **`Code.disciplined_draft`** — drafts of structured code are disciplined. -/

namespace WasmCompiler.Emission

/-! ## Labels in directives -/

/-- The number of labels that directives define. -/
def definitions : List Directive → Nat
  | [] => 0
  | .defineLabel :: rest => definitions rest + 1
  | _ :: rest => definitions rest

/-- The labels that directives give a place, in order. -/
def marks : List Directive → List Nat
  | [] => []
  | .markLabel label :: rest => label :: marks rest
  | _ :: rest => marks rest

/-- **Whether directives stand inside a function and use no label before it is defined**, given the
number of labels defined before. -/
def Orderly : (defined : Nat) → List Directive → Prop
  | _, [] => True
  | defined, .defineLabel :: rest => Orderly (defined + 1) rest
  | defined, .markLabel label :: rest => label < defined ∧ Orderly defined rest
  | defined, .op op :: rest => (∀ target ∈ op.targets, target < defined) ∧ Orderly defined rest
  | defined, .call _ _ :: rest => Orderly defined rest
  | defined, .callIndirect _ _ :: rest => Orderly defined rest
  | _, .declareModule _ :: _ => False
  | _, .beginFunction _ _ :: _ => False
  | _, .declareLocal _ :: _ => False
  | _, .endFunction :: _ => False

/-- Directives in a row define as many labels as both parts. -/
@[simp] theorem definitions_append (first second : List Directive) :
    definitions (first ++ second) = definitions first + definitions second := by
  induction first with
  | nil => simp [definitions]
  | cons directive rest restInduction =>
      cases directive <;> simp [definitions, restInduction, Nat.add_right_comm]

/-- They mark the labels of both parts in order. -/
@[simp] theorem marks_append (first second : List Directive) :
    marks (first ++ second) = marks first ++ marks second := by
  induction first with
  | nil => rfl
  | cons directive rest restInduction => cases directive <;> simp [marks, restInduction]

/-- Orderly directives one after the other are orderly. -/
theorem orderly_append {defined : Nat} {first second : List Directive} :
    Orderly defined (first ++ second) ↔
      Orderly defined first ∧ Orderly (defined + definitions first) second := by
  induction first generalizing defined with
  | nil => simp [Orderly, definitions]
  | cons directive rest restInduction =>
      cases directive <;>
        simp [Orderly, restInduction, definitions, and_assoc, Nat.add_assoc, Nat.add_comm 1]

/-- Operations without targets are orderly. -/
theorem orderly_operations {defined : Nat} {ops : List (Bytecode.Op Nat)}
    (below : ∀ op ∈ ops, ∀ target ∈ op.targets, target < defined) :
    Orderly defined (operations ops) := by
  induction ops with
  | nil => trivial
  | cons op rest restInduction =>
      exact ⟨below op List.mem_cons_self,
        restInduction fun other member => below other (List.mem_cons_of_mem _ member)⟩

/-- Operations define no labels. -/
@[simp] theorem definitions_operations (ops : List (Bytecode.Op Nat)) :
    definitions (operations ops) = 0 := by
  induction ops with
  | nil => rfl
  | cons op rest restInduction => exact restInduction

/-- Operations mark no labels. -/
@[simp] theorem marks_operations (ops : List (Bytecode.Op Nat)) : marks (operations ops) = [] := by
  induction ops with
  | nil => rfl
  | cons op rest restInduction => exact restInduction

/-! ## Discipline -/

/-- **Whether a draft that starts after `defined` labels treats labels well**: it uses none before
it is defined, and gives each of its own exactly one place. -/
structure Disciplined (defined : Nat) (draft : Draft) : Prop where
  /-- Labels are defined before they occur. -/
  orderly : Orderly defined draft.directives
  /-- The number of labels is followed. -/
  counted : draft.stage.defined = defined + definitions draft.directives
  /-- The labels defined here get one place each. -/
  placed : (marks draft.directives).Perm (List.range' defined (definitions draft.directives))

namespace Disciplined

variable {defined : Nat}

/-- A draft without labels of its own is disciplined if it is orderly. -/
theorem of_operations {ops : List (Bytecode.Op Nat)} {stage : Stage}
    (below : ∀ op ∈ ops, ∀ target ∈ op.targets, target < defined)
    (counted : stage.defined = defined) : Disciplined defined ⟨operations ops, stage⟩ where
  orderly := orderly_operations below
  counted := by simpa using counted
  placed := by simp

/-- Operations that do not branch are disciplined. -/
theorem of_silent {ops : List (Bytecode.Op Nat)} {stage : Stage}
    (silent : ∀ op ∈ ops, op.targets = []) (counted : stage.defined = defined) :
    Disciplined defined ⟨operations ops, stage⟩ := by
  refine of_operations (fun op member => ?_) counted
  rw [silent op member]
  exact fun _ absurd => nomatch absurd

/-- Labels stay defined. -/
theorem le {draft : Draft} (disciplined : Disciplined defined draft) :
    defined ≤ draft.stage.defined := by
  rw [disciplined.counted]
  exact Nat.le_add_right _ _

/-- Disciplined drafts one after the other are disciplined. -/
theorem andThen {first : Draft} {further : Stage → Draft} (disciplined : Disciplined defined first)
    (onward : Disciplined first.stage.defined (further first.stage)) :
    Disciplined defined (first.andThen further) where
  orderly := by
    rw [Draft.directives_andThen, orderly_append, ← disciplined.counted]
    exact ⟨disciplined.orderly, onward.orderly⟩
  counted := by
    rw [Draft.stage_andThen, onward.counted, disciplined.counted, Draft.directives_andThen,
      definitions_append, Nat.add_assoc]
  placed := by
    rw [Draft.directives_andThen, marks_append, definitions_append, ← List.range'_append_1,
      ← disciplined.counted]
    exact disciplined.placed.append onward.placed

/-- What is known besides the number of labels does not matter. -/
theorem with_stage {draft : Draft} (disciplined : Disciplined defined draft) {stage : Stage}
    (counted : stage.defined = draft.stage.defined) :
    Disciplined defined ⟨draft.directives, stage⟩ where
  orderly := disciplined.orderly
  counted := counted.trans disciplined.counted
  placed := disciplined.placed

/-- A block defines its label, which gets its place at the end. -/
theorem block {inner : Draft} (disciplined : Disciplined (defined + 1) inner) {stage : Stage}
    (counted : stage.defined = inner.stage.defined) :
    Disciplined defined
      ⟨.defineLabel :: (inner.directives ++ [.markLabel defined]), stage⟩ where
  orderly := by
    simp only [Orderly, orderly_append]
    exact ⟨disciplined.orderly, by omega, trivial⟩
  counted := by
    simp only [definitions, definitions_append]
    rw [counted, disciplined.counted]
    omega
  placed := by
    simp only [marks, marks_append, definitions, definitions_append, Nat.add_zero]
    rw [List.range'_succ]
    exact List.perm_append_comm.trans (disciplined.placed.cons defined)

/-- A loop defines its label, which gets its place at the start. -/
theorem loop {inner : Draft} (disciplined : Disciplined (defined + 1) inner) {stage : Stage}
    (counted : stage.defined = inner.stage.defined) :
    Disciplined defined ⟨.defineLabel :: .markLabel defined :: inner.directives, stage⟩ where
  orderly := ⟨Nat.lt_succ_self defined, disciplined.orderly⟩
  counted := by
    simp only [definitions]
    rw [counted, disciplined.counted]
    omega
  placed := by
    simp only [marks, definitions]
    rw [List.range'_succ]
    exact disciplined.placed.cons defined

/-- A conditional block branches to its label, which gets its place at the end. -/
theorem ifThen {inner : Draft} (disciplined : Disciplined (defined + 1) inner) {stage : Stage}
    (counted : stage.defined = inner.stage.defined) :
    Disciplined defined
      ⟨.defineLabel :: .op (.jumpUnless defined) :: (inner.directives ++ [.markLabel defined]),
        stage⟩ where
  orderly := by
    refine ⟨fun target member => ?_, (disciplined.block counted).orderly⟩
    rw [List.mem_singleton.mp member]
    exact Nat.lt_succ_self defined
  counted := (disciplined.block counted).counted
  placed := (disciplined.block counted).placed

/-- A conditional block with two arms defines the labels of its end and of its second arm. -/
theorem ifElse {inner other : Draft} (disciplined : Disciplined (defined + 2) inner)
    (otherDisciplined : Disciplined inner.stage.defined other) {stage : Stage}
    (counted : stage.defined = other.stage.defined) :
    Disciplined defined
      ⟨.defineLabel :: .defineLabel :: .op (.jumpUnless (defined + 1)) ::
          (inner.directives ++ .op (.jump defined) :: .markLabel (defined + 1) ::
            (other.directives ++ [.markLabel defined])), stage⟩ where
  orderly := by
    have otherOrderly := otherDisciplined.orderly
    rw [disciplined.counted] at otherOrderly
    simp only [Orderly, orderly_append, Bytecode.Op.targets, List.mem_singleton, forall_eq]
    exact ⟨by omega, disciplined.orderly, by omega, by omega, otherOrderly, by omega, trivial⟩
  counted := by
    simp only [definitions, definitions_append]
    rw [counted, otherDisciplined.counted, disciplined.counted]
    omega
  placed := by
    simp only [marks, marks_append, definitions, definitions_append, Nat.add_zero]
    rw [List.range'_succ, List.range'_succ, ← List.range'_append_1]
    have otherPlaced := otherDisciplined.placed
    rw [disciplined.counted] at otherPlaced
    have first : (marks inner.directives ++ (defined + 1) :: marks other.directives).Perm
        ((defined + 1) :: (List.range' (defined + 2) (definitions inner.directives) ++
          List.range' (defined + 2 + definitions inner.directives)
            (definitions other.directives))) :=
      List.perm_middle.trans ((disciplined.placed.append otherPlaced).cons (defined + 1))
    rw [← List.cons_append, ← List.append_assoc]
    exact List.perm_append_comm.trans (first.cons defined)

end Disciplined

/-- Whether the landings around a place have labels below a number. -/
def Scope.Below (defined : Nat) {depth : Nat} (scope : Scope depth) : Prop :=
  ∀ level, (scope.landing level).label < defined

namespace Scope.Below

variable {defined depth : Nat} {scope : Scope depth}

/-- More labels may have been defined. -/
theorem mono (below : scope.Below defined) {more : Nat} (larger : defined ≤ more) :
    scope.Below more :=
  fun level => Nat.lt_of_lt_of_le (below level) larger

/-- Inside a block there is its landing. -/
theorem inside {landing : Landing} (below : scope.Below defined)
    (here : landing.label < defined) : (scope.inside landing).Below defined := by
  rintro ⟨_ | level, bound⟩
  · exact here
  · exact below ⟨level, Nat.lt_of_succ_lt_succ bound⟩

end Scope.Below

/-! ## Computations -/

end WasmCompiler.Emission

namespace WasmCompiler

namespace Bytecode.Op

/-- Whether an operation only computes on operands. -/
def isComputation {Target : Type} : Op Target → Bool
  | .const _ | .compare _ | .arith _ | .convert _ | .intrinsic _ => true
  | _ => false

/-- Computations have no targets. -/
theorem targets_of_isComputation {Target : Type} {op : Op Target}
    (computes : op.isComputation = true) : op.targets = [] := by
  cases op <;> first | rfl | cases computes

end Bytecode.Op

section

variable {Target : Type}

/-- A comparison of integers becomes computations. -/
theorem IntComparison.all_isComputation (op : IntComparison) :
    (op.lower : List (Bytecode.Op Target)).all Bytecode.Op.isComputation = true := by
  rcases op with _ | _ | signedness | signedness | signedness | signedness <;>
    first | rfl | cases signedness <;> rfl

/-- So does a comparison of floating-point numbers. -/
theorem FloatComparison.all_isComputation (op : FloatComparison) :
    (op.lower : List (Bytecode.Op Target)).all Bytecode.Op.isComputation = true := by
  cases op <;> rfl

/-- So does a binary operation on integers. -/
theorem IntBinary.all_isComputation (type : IntType) (op : IntBinary) :
    (op.lower type : List (Bytecode.Op Target)).all Bytecode.Op.isComputation = true := by
  cases type <;>
    rcases op with _ | _ | _ | signedness | signedness | _ | _ | _ | _ | signedness | _ | _ <;>
    first | rfl | cases signedness <;> rfl

/-- So does a conversion. -/
theorem NumericConversion.all_isComputation (op : NumericConversion) :
    (op.lower : List (Bytecode.Op Target)).all Bytecode.Op.isComputation = true := by
  cases op with
  | truncate target source signedness => cases target <;> cases signedness <;> rfl
  | extend signedness => cases signedness <;> rfl
  | convert target source signedness => cases target <;> cases signedness <;> rfl
  | _ => rfl

/-- **Numeric operations become computations.** -/
theorem NumericOp.isComputation_of_mem_lower {operation : NumericOp} {op : Bytecode.Op Target}
    (member : op ∈ operation.lower) : op.isComputation = true := by
  have all : (operation.lower : List (Bytecode.Op Target)).all Bytecode.Op.isComputation =
      true := by
    cases operation with
    | eqz type => rfl
    | intCompare type op => exact op.all_isComputation
    | floatCompare type op => exact op.all_isComputation
    | intUnary type op => cases op <;> rfl
    | intBinary type op => exact op.all_isComputation type
    | floatUnary type op => cases op <;> rfl
    | floatBinary type op => cases op <;> rfl
    | conversion op => exact op.all_isComputation
  exact List.all_eq_true.mp all op member

end

end WasmCompiler

namespace WasmCompiler.Emission

/-! ## Drafts of branches -/

/-- Removing operands uses no label. -/
theorem Unwind.targets_operations {removal : Unwind} {op : Bytecode.Op Nat}
    (member : op ∈ removal.operations) : op.targets = [] := by
  unfold Unwind.operations at member
  split at member
  · cases member
  · rw [List.mem_singleton.mp member]
    rfl

/-- Removing operands and branching uses the label that is branched to. -/
theorem lt_of_mem_removal {defined : Nat} {removal : Unwind} {last op : Bytecode.Op Nat}
    (below : ∀ target ∈ last.targets, target < defined)
    (member : op ∈ removal.operations ++ [last]) : ∀ target ∈ op.targets, target < defined := by
  rcases List.mem_append.mp member with member | member
  · rw [Unwind.targets_operations member]
    exact fun _ absurd => by cases absurd
  · rw [List.mem_singleton.mp member]
    exact below

/-- **A conditional branch** is disciplined. -/
theorem disciplined_conditional {target : Nat × Unwind} {stage : Stage}
    (below : target.1 < stage.defined) :
    Disciplined stage.defined (conditionalDraft target stage) := by
  unfold conditionalDraft
  by_cases none : target.2.drop = 0
  · rw [if_pos none]
    show Disciplined stage.defined ⟨operations [.jumpIf target.1], stage⟩
    refine Disciplined.of_operations ?_ rfl
    simpa [Bytecode.Op.targets] using below
  · rw [if_neg none]
    have middle : Orderly (stage.defined + 1)
        (operations (target.2.operations ++ [.jump target.1])) := by
      refine orderly_operations fun op member => lt_of_mem_removal ?_ member
      intro label labelMember
      rw [List.mem_singleton.mp labelMember]
      omega
    refine ⟨?_, ?_, ?_⟩
    · simp only [Orderly, orderly_append, definitions_operations]
      refine ⟨?_, middle, Nat.lt_succ_self _, trivial⟩
      intro label labelMember
      rw [List.mem_singleton.mp labelMember]
      exact Nat.lt_succ_self _
    · simp [definitions, Stage.define]
    · simp [definitions, marks]

/-- The labels of landing pads are given places in order. -/
theorem marks_padsDirectives (pad : Nat) (targets : List (Nat × Unwind)) :
    marks (padsDirectives pad targets) = List.range' pad targets.length := by
  induction targets generalizing pad with
  | nil => rfl
  | cons target rest restInduction =>
      simp [padsDirectives, padDirectives, marks, restInduction, List.range'_succ]

/-- Landing pads define no labels. -/
theorem definitions_padsDirectives (pad : Nat) (targets : List (Nat × Unwind)) :
    definitions (padsDirectives pad targets) = 0 := by
  induction targets generalizing pad with
  | nil => rfl
  | cons target rest restInduction =>
      simp [padsDirectives, padDirectives, definitions, restInduction]

/-- Landing pads use the labels that they branch to. -/
theorem orderly_padsDirectives {defined pad : Nat} {targets : List (Nat × Unwind)}
    (below : ∀ target ∈ targets, target.1 < defined) (pads : pad + targets.length ≤ defined) :
    Orderly defined (padsDirectives pad targets) := by
  induction targets generalizing pad with
  | nil => trivial
  | cons target rest restInduction =>
      rw [List.length_cons] at pads
      simp only [padsDirectives, padDirectives, List.cons_append, Orderly, orderly_append,
        definitions_operations]
      refine ⟨by omega, orderly_operations fun op member => lt_of_mem_removal ?_ member,
        restInduction (fun other member => below other (List.mem_cons_of_mem _ member)) (by omega)⟩
      intro label labelMember
      rw [List.mem_singleton.mp labelMember]
      exact below target List.mem_cons_self

/-- Definitions in a row define as many labels. -/
@[simp] theorem definitions_replicate (count : Nat) :
    definitions (List.replicate count .defineLabel) = count := by
  induction count with
  | zero => rfl
  | succ count countInduction => simp [List.replicate_succ, definitions, countInduction]

/-- Definitions mark no labels. -/
@[simp] theorem marks_replicate (count : Nat) :
    marks (List.replicate count .defineLabel) = [] := by
  induction count with
  | zero => rfl
  | succ count countInduction => simp [List.replicate_succ, marks, countInduction]

/-- Definitions in a row name labels in order. -/
theorem orderly_replicate (defined count : Nat) :
    Orderly defined (List.replicate count .defineLabel) := by
  induction count generalizing defined with
  | zero => trivial
  | succ count countInduction => exact countInduction (defined + 1)

/-- **A branch by selector** is disciplined. -/
theorem disciplined_selection {targets : List (Nat × Unwind)} {fallback : Nat × Unwind}
    {stage : Stage} (below : ∀ target ∈ targets ++ [fallback], target.1 < stage.defined) :
    Disciplined stage.defined (selectionDraft targets fallback stage) := by
  unfold selectionDraft
  by_cases uniform : (targets.all fun target => target.2 == fallback.2) = true
  · rw [if_pos uniform]
    refine Disciplined.of_operations (fun op member => lt_of_mem_removal ?_ member) rfl
    intro label labelMember
    rcases List.mem_append.mp labelMember with labelMember | labelMember
    · obtain ⟨target, member, rfl⟩ := List.mem_map.mp labelMember
      exact below target (List.mem_append_left _ member)
    · rw [List.mem_singleton.mp labelMember]
      exact below fallback (List.mem_append_right _ (List.mem_singleton_self _))
  · rw [if_neg uniform]
    have pads : Orderly (stage.defined + (targets.length + 1))
        (padsDirectives stage.defined (targets ++ [fallback])) := by
      refine orderly_padsDirectives (fun target member => ?_) (by simp)
      exact Nat.lt_of_lt_of_le (below target member) (Nat.le_add_right _ _)
    refine ⟨?_, ?_, ?_⟩
    · rw [orderly_append, definitions_replicate]
      refine ⟨orderly_replicate _ _, ?_, pads⟩
      intro label labelMember
      rcases List.mem_append.mp labelMember with labelMember | labelMember
      · have := List.mem_range'_1.mp labelMember
        omega
      · rw [List.mem_singleton.mp labelMember]
        omega
    · simp [definitions, definitions_padsDirectives, Stage.define]
    · simp [definitions, marks, definitions_padsDirectives, marks_padsDirectives]

end WasmCompiler.Emission

namespace WasmCompiler

open Emission
open Bytecode.Op (targets_of_isComputation)

/-! ## Drafts of structured code -/

/-- **A jump** is disciplined inside blocks whose labels are defined. -/
theorem Jump.disciplined_draft {depth : Nat} {scope : Scope depth} {stage : Stage}
    (below : scope.Below stage.defined) (leap : Jump depth) :
    Disciplined stage.defined (leap.draft scope stage) := by
  cases leap with
  | always level =>
      refine Disciplined.of_operations (fun op member => lt_of_mem_removal ?_ member) rfl
      intro label labelMember
      rw [List.mem_singleton.mp labelMember]
      exact below level
  | ifTrue level => exact @disciplined_conditional _ (stage.exchange 1 0) (below level)
  | table levels fallback =>
      refine (@disciplined_selection _ _ (stage.exchange 1 0) ?_).with_stage rfl
      intro target member
      rcases List.mem_append.mp member with member | member
      · obtain ⟨level, -, rfl⟩ := List.mem_map.mp member
        exact below level
      · rw [List.mem_singleton.mp member]
        exact below fallback

/-- Reading a parameter or a local does not branch. -/
theorem Emission.Site.targets_loadOp (site : Site) (index : Nat) :
    (site.loadOp index).targets = [] := by
  unfold Site.loadOp
  split <;> rfl

/-- Replacing a parameter or a local does not branch. -/
theorem Emission.Site.targets_storeOp (site : Site) (index : Nat) :
    (site.storeOp index).targets = [] := by
  unfold Site.storeOp
  split <;> rfl

/-- **An instruction without block structure** uses no label. -/
theorem PlainInstruction.disciplined_draft (site : Site) (base : Nat) (stage : Stage)
    (instruction : PlainInstruction) :
    Disciplined stage.defined (instruction.draft site base stage) := by
  have single : ∀ (op : Bytecode.Op Nat) (later : Stage), op.targets = [] →
      later.defined = stage.defined → Disciplined stage.defined ⟨operations [op], later⟩ :=
    fun op later silent => Disciplined.of_silent (List.forall_mem_singleton.mpr silent)
  cases instruction with
  | unreachable => exact single _ _ rfl rfl
  | nop => exact ⟨trivial, rfl, List.Perm.refl _⟩
  | ret => exact single _ _ rfl rfl
  | call function =>
      simp only [draft]
      split <;> exact ⟨trivial, rfl, List.Perm.refl _⟩
  | callIndirect typeIndex =>
      simp only [draft]
      split <;> exact ⟨trivial, rfl, List.Perm.refl _⟩
  | drop => exact single _ _ rfl rfl
  | select => exact single _ _ rfl rfl
  | getLocal index => exact single _ _ (site.targets_loadOp _) rfl
  | setLocal index => exact single _ _ (site.targets_storeOp _) rfl
  | teeLocal index =>
      show Disciplined _ ⟨operations [site.storeOp index.toNat, site.loadOp index.toNat], stage⟩
      refine Disciplined.of_silent (List.forall_mem_cons.mpr ⟨site.targets_storeOp _, ?_⟩) rfl
      exact List.forall_mem_singleton.mpr (site.targets_loadOp _)
  | getGlobal index => exact single _ _ rfl rfl
  | setGlobal index => exact single _ _ rfl rfl
  | access accessor alignment offset =>
      refine single _ _ rfl ?_
      split <;> rfl
  | currentMemory => exact single _ _ rfl rfl
  | growMemory => exact single _ _ rfl rfl
  | const value => exact single _ _ rfl rfl
  | numeric operation =>
      exact Disciplined.of_silent (fun op member => targets_of_isComputation
        (operation.isComputation_of_mem_lower member)) rfl

namespace Code

/-- **Drafts of structured code** are disciplined inside blocks whose labels are defined. -/
theorem disciplined_draft {depth : Nat} (site : Site) (code : Code depth) {scope : Scope depth}
    {stage : Stage} (below : scope.Below stage.defined) :
    Disciplined stage.defined (code.draft site scope stage) := by
  -- What carries the induction is that landings have labels below those defined so far; inside a
  -- block one more label is defined, its own.
  induction code generalizing stage with
  | empty => exact ⟨trivial, rfl, List.Perm.refl _⟩
  | plain offset instruction next nextInduction =>
      have first := instruction.disciplined_draft site scope.base stage
      exact first.andThen (nextInduction (below.mono first.le))
  | jump offset leap next nextInduction =>
      have first := leap.disciplined_draft below
      exact first.andThen (nextInduction (below.mono first.le))
  | block offset kind type body finish next bodyInduction nextInduction =>
      have entered : scope.Below (stage.define 1).defined := below.mono (Nat.le_succ _)
      cases kind with
      | block =>
          have inside : (scope.inside ⟨stage.defined, stage.height, type.arity⟩).Below
              (stage.define 1).defined :=
            entered.inside (Nat.lt_succ_self stage.defined)
          have inner := bodyInduction inside
          have later := entered.mono inner.le
          exact Disciplined.andThen (inner.block rfl) (nextInduction later)
      | loop =>
          have inside : (scope.inside ⟨stage.defined, stage.height, 0⟩).Below
              (stage.define 1).defined :=
            entered.inside (Nat.lt_succ_self stage.defined)
          have inner := bodyInduction inside
          have later := entered.mono inner.le
          exact Disciplined.andThen (inner.loop rfl) (nextInduction later)
  | ifThen offset type arm finish next armInduction nextInduction =>
      have entered : scope.Below ((stage.exchange 1 0).define 1).defined :=
        below.mono (Nat.le_succ _)
      have inside : (scope.inside ⟨stage.defined, (stage.exchange 1 0).height, type.arity⟩).Below
          ((stage.exchange 1 0).define 1).defined :=
        entered.inside (Nat.lt_succ_self stage.defined)
      have inner := armInduction inside
      have later := entered.mono inner.le
      exact Disciplined.andThen (inner.ifThen rfl) (nextInduction later)
  | ifElse offset type arm middle otherwise finish next armInduction otherwiseInduction
      nextInduction =>
      have entered : scope.Below ((stage.exchange 1 0).define 2).defined :=
        below.mono (Nat.le_add_right _ 2)
      have inside : (scope.inside ⟨stage.defined, (stage.exchange 1 0).height, type.arity⟩).Below
          ((stage.exchange 1 0).define 2).defined :=
        entered.inside (Nat.lt_add_of_pos_right (Nat.zero_lt_succ 1))
      have inner := armInduction inside
      have other := @otherwiseInduction _ ((stage.exchange 1 0).leave (arm.draft site _ _).stage 0)
        (inside.mono inner.le)
      have later := (entered.mono inner.le).mono other.le
      exact Disciplined.andThen (inner.ifElse other rfl) (nextInduction later)

end Code

end WasmCompiler
