import WasmCompiler.Proofs.Scripts

/-! # Labels that emission leaves alone

Of the labels that are defined so far, emission goes on to give places only to those that stand for
labels of the body. The labels that a branch defines for itself do not, so the places that they are
given by the branch are their last.

* **`Secluded`** — a branch keeps the labels that it defines to itself;
* **`State.MayMark`** — the labels that may still be given places after a state;
* **`State.Since`** — what is true of a state reached since another one;
* **`Emitter.Spares`** — an action gives places to no other labels;
* **`Site.exists_stop`** — what emission of a function has given before and after an instruction. -/

namespace WasmCompiler.Emission

open Stateful

/-! ## Labels of branches -/

/-- **Whether a draft keeps its labels to itself**: it gives places to new labels only, to each of
them once, and branches to them. -/
structure Secluded (stage : Stage) (draft : Draft) : Prop where
  /-- Labels stay defined. -/
  grows : stage.defined ≤ draft.stage.defined
  /-- The labels are defined by the draft. -/
  fresh : ∀ label ∈ marks draft.directives, stage.defined ≤ label ∧ label < draft.stage.defined
  /-- Each of them is given one place. -/
  unique : (marks draft.directives).Nodup
  /-- Each of them is branched to. -/
  aimed : ∀ label ∈ marks draft.directives, ∃ op ∈ emitted draft.directives, label ∈ op.targets

/-- A draft that gives no places. -/
theorem Secluded.of_marks_eq_nil {stage : Stage} {draft : Draft}
    (grows : stage.defined ≤ draft.stage.defined) (none : marks draft.directives = []) :
    Secluded stage draft := by
  refine ⟨grows, ?_, ?_, ?_⟩ <;> rw [none]
  · exact nofun
  · exact List.nodup_nil
  · exact nofun

/-- What is known besides the number of labels does not matter. -/
theorem Secluded.with_stage {stage : Stage} {draft : Draft} (secluded : Secluded stage draft)
    {later : Stage} (counted : later.defined = draft.stage.defined) :
    Secluded stage ⟨draft.directives, later⟩ where
  grows := counted ▸ secluded.grows
  fresh := counted ▸ secluded.fresh
  unique := secluded.unique
  aimed := secluded.aimed

/-- **A conditional branch** gives a place to the label behind it at most. -/
theorem secluded_conditional (target : Nat × Unwind) (stage : Stage) :
    Secluded stage (conditionalDraft target stage) := by
  unfold conditionalDraft
  by_cases none : target.2.drop = 0
  · rw [if_pos none]
    exact .of_marks_eq_nil (Nat.le_refl _) rfl
  · rw [if_neg none]
    have marked : marks (.defineLabel :: .op (.jumpUnless stage.defined) ::
        (operations (target.2.operations ++ [.jump target.1]) ++ [.markLabel stage.defined])) =
          [stage.defined] := by
      simp [marks]
    refine ⟨Nat.le_succ _, ?_, ?_, ?_⟩ <;> rw [marked]
    · exact List.forall_mem_singleton.mpr ⟨Nat.le_refl _, Nat.lt_succ_self _⟩
    · exact List.nodup_cons.mpr ⟨List.not_mem_nil, List.nodup_nil⟩
    · exact List.forall_mem_singleton.mpr ⟨_, List.mem_cons_self, List.mem_cons_self⟩

/-- **A branch by selector** gives places to the labels of its landing pads at most. -/
theorem secluded_selection (targets : List (Nat × Unwind)) (fallback : Nat × Unwind)
    (stage : Stage) : Secluded stage (selectionDraft targets fallback stage) := by
  unfold selectionDraft
  by_cases uniform : (targets.all fun target => target.2 == fallback.2) = true
  · rw [if_pos uniform]
    exact .of_marks_eq_nil (Nat.le_refl _) (marks_operations _)
  · rw [if_neg uniform]
    have marked : marks (List.replicate (targets.length + 1) .defineLabel ++
        .op (.switch (List.range' stage.defined targets.length) (stage.defined + targets.length)) ::
          padsDirectives stage.defined (targets ++ [fallback])) =
            List.range' stage.defined (targets.length + 1) := by
      simp [marks, marks_padsDirectives]
    refine ⟨Nat.le_add_right _ _, ?_, ?_, ?_⟩ <;> rw [marked]
    · exact fun label member => List.mem_range'_1.mp member
    · exact List.nodup_range'
    · intro label member
      refine ⟨.switch (List.range' stage.defined targets.length)
        (stage.defined + targets.length), ?_, ?_⟩
      · rw [emitted_append]
        exact List.mem_append_right _ List.mem_cons_self
      · rwa [List.range'_concat, Nat.one_mul] at member

namespace State

/-! ## States since another one -/

/-- The labels that stand for labels of the body. -/
def named (state : State) : List Nat :=
  state.labels.map Prod.snd

/-- **Whether a label may still be given a place**: it stands for a label of the body, or it is not
defined yet. -/
def MayMark (state : State) (label : Nat) : Prop :=
  label ∈ state.named ∨ state.defined ≤ label

/-- **What is true of a state that emission has reached since another one.** -/
structure Since (base state : State) : Prop where
  /-- Labels stay defined. -/
  grows : base.defined ≤ state.defined
  /-- What stands for a label of the body is defined. -/
  defined : ∀ label ∈ state.named, label < state.defined
  /-- It has stood for one before, or has been defined since. -/
  named : ∀ label ∈ state.named, base.MayMark label
  /-- Such labels alone have been given places. -/
  given : ∃ given, state.directives.toList = base.directives.toList ++ given ∧
    ∀ label ∈ marks given, base.MayMark label

namespace Since

variable {base state : State}

/-- Nothing has been given yet. -/
theorem start (defined : ∀ label ∈ base.named, label < base.defined) : base.Since base where
  grows := Nat.le_refl _
  defined := defined
  named _ member := .inl member
  given := ⟨[], (List.append_nil _).symm, nofun⟩

/-- What may be given a place later may be given one before. -/
theorem mayMark (since : base.Since state) {label : Nat} (may : state.MayMark label) :
    base.MayMark label := by
  rcases may with member | fresh
  · exact since.named label member
  · exact .inr (Nat.le_trans since.grows fresh)

/-- A draft that gives places to such labels only, with names for new labels. -/
theorem advance (since : base.Since state) {draft : Draft} {names : List (Nat × Nat)}
    (grows : state.defined ≤ draft.stage.defined)
    (named : ∀ label ∈ names.map Prod.snd, state.defined ≤ label ∧ label < draft.stage.defined)
    (marked : ∀ label ∈ marks draft.directives, state.MayMark label) :
    base.Since (state.advance draft names) := by
  have split : (state.advance draft names).named = names.map Prod.snd ++ state.named :=
    List.map_append
  refine ⟨Nat.le_trans since.grows grows, ?_, ?_, ?_⟩
  · rw [split]
    refine List.forall_mem_append.mpr ⟨fun label member => (named label member).2, ?_⟩
    exact fun label member => Nat.lt_of_lt_of_le (since.defined label member) grows
  · rw [split]
    refine List.forall_mem_append.mpr ⟨fun label member => ?_, since.named⟩
    exact .inr (Nat.le_trans since.grows (named label member).1)
  · obtain ⟨given, before, spared⟩ := since.given
    refine ⟨given ++ draft.directives, ?_, ?_⟩
    · rw [← List.append_assoc, ← before]
      exact Array.toList_append
    · rw [marks_append]
      exact List.forall_mem_append.mpr
        ⟨spared, fun label member => since.mayMark (marked label member)⟩

/-- Blocks and operands do not matter. -/
theorem of_same (since : base.Since state) {later : State}
    (directives : later.directives = state.directives) (defined : later.defined = state.defined)
    (labels : later.labels = state.labels) : base.Since later := by
  have same : later.named = state.named := congrArg (List.map Prod.snd) labels
  refine ⟨defined ▸ since.grows, ?_, ?_, ?_⟩
  · rw [same, defined]
    exact since.defined
  · rw [same]
    exact since.named
  · rw [directives]
    exact since.given

end Since

end State

namespace Emitter

variable {α β : Type} {base : State}

/-! ## Actions that only look -/

/-- Whether an action finds a label that stands for one of the body, and changes nothing. -/
def FindsLabel (action : Emitter Nat) : Prop :=
  ∀ state label later, action state = .ok label later → later = state ∧ label ∈ state.named

/-- An action that fails finds any label. -/
theorem findsLabel_throw (error : Error) : FindsLabel (throw error) := by
  intro state label later equation
  cases equation

/-- Asking for the label that stands for one of the body finds it. -/
theorem findsLabel_labelFor (site : Site) (position bodyLabel : Nat) :
    FindsLabel (labelFor site position bodyLabel) := by
  intro state label later finds
  rw [labelFor, bind_of_ok _ (get_apply state)] at finds
  cases found : state.labels.lookup bodyLabel with
  | none =>
      rw [found] at finds
      cases finds
  | some other =>
      rw [found] at finds
      cases finds
      obtain ⟨front, back, split, -⟩ := List.lookup_eq_some_iff.mp found
      refine ⟨rfl, List.mem_map.mpr ⟨(bodyLabel, label), ?_, rfl⟩⟩
      rw [split]
      exact List.mem_append_right _ List.mem_cons_self

/-- So does asking for the label of a block. -/
theorem findsLabel_blockLabel (site : Site) (opener : Nat) :
    FindsLabel (blockLabel site opener) := by
  unfold blockLabel
  split
  · exact findsLabel_labelFor site opener _
  · exact findsLabel_labelFor site opener _
  · exact findsLabel_labelFor site opener _
  · exact findsLabel_throw _

/-- **Finding where a branch goes** changes nothing. -/
theorem destination_inspects {site : Site} {branch : Branch} {target : Nat × Unwind}
    {state later : State} (finds : destination site branch state = .ok target later) :
    later = state := by
  obtain ⟨label, middle, finds, follows⟩ := bind_eq_ok.mp finds
  rw [(findsLabel_blockLabel site _ _ _ _ finds).1, bind_of_ok _ (get_apply state)] at follows
  cases opened : state.frames.find? fun frame =>
      frame.opener == branchOpener site.body branch.target with
  | none =>
      rw [opened] at follows
      cases follows
  | some frame =>
      rw [opened] at follows
      cases follows
      rfl

/-- Finding destinations leaves the state. -/
theorem destinations_inspect {site : Site} {branches : List Branch} {targets : List (Nat × Unwind)}
    {state later : State} (finds : branches.mapM (destination site) state = .ok targets later) :
    later = state := by
  induction branches generalizing targets state with
  | nil =>
      cases finds
      rfl
  | cons branch rest restInduction =>
      rw [List.mapM_cons] at finds
      obtain ⟨target, middle, first, follows⟩ := bind_eq_ok.mp finds
      obtain ⟨others, last, onward, ends⟩ := bind_eq_ok.mp follows
      cases ends
      rw [restInduction onward, destination_inspects first]

/-! ## Actions that spare labels -/

/-- **Whether an action spares labels**: it gives no places to labels that are defined at `base`,
except to those that stand for labels of the body there. -/
def Spares (base : State) (action : Emitter α) (returns : α → Prop) : Prop :=
  ∀ state value later, base.Since state → action state = .ok value later →
    base.Since later ∧ returns value

/-- An action whose result does not matter. -/
def SparesAll (base : State) (action : Emitter α) : Prop :=
  Spares base action fun _ => True

/-- Giving a value marks nothing. -/
theorem spares_pure {returns : α → Prop} {value : α} (meets : returns value) :
    Spares base (pure value) returns := by
  intro state result later since equation
  cases equation
  exact ⟨since, meets⟩

/-- Nor does failing. -/
theorem spares_throw {returns : α → Prop} (error : Error) :
    Spares base (throw error : Emitter α) returns := by
  intro state result later since equation
  cases equation

/-- Nor does a look at the state. -/
theorem spares_get : SparesAll base (get : Emitter State) := by
  intro state result later since equation
  cases equation
  exact ⟨since, trivial⟩

/-- A change that leaves directives and labels marks nothing. -/
theorem spares_modify {change : State → State}
    (directives : ∀ state, (change state).directives = state.directives)
    (defined : ∀ state, (change state).defined = state.defined)
    (labels : ∀ state, (change state).labels = state.labels) :
    SparesAll base (modify change) := by
  intro state result later since equation
  cases equation
  exact ⟨since.of_same (directives state) (defined state) (labels state), trivial⟩

namespace Spares

/-- What both parts of a sequence spare is spared by the sequence. -/
theorem bind {between : α → Prop} {returns : β → Prop} {first : Emitter α}
    {second : α → Emitter β} (start : Spares base first between)
    (onward : ∀ value, between value → Spares base (second value) returns) :
    Spares base (first >>= second) returns := by
  intro state result last since equation
  obtain ⟨value, later, starts, follows⟩ := bind_eq_ok.mp equation
  obtain ⟨middle, meets⟩ := start state value later since starts
  exact onward value meets later result last middle follows

/-- A choice spares labels if both sides do. -/
theorem ite {returns : α → Prop} {condition : Prop} [Decidable condition] {first second : Emitter α}
    (positive : Spares base first returns) (negative : Spares base second returns) :
    Spares base (if condition then first else second) returns := by
  by_cases holds : condition
  · rw [if_pos holds]
    exact positive
  · rw [if_neg holds]
    exact negative

end Spares

/-- An action with a draft that gives places to new labels only. -/
theorem spares_draft {action : Emitter Unit} {draft : State → Draft}
    (gives : ∀ state later, action state = .ok () later → later = state.advance (draft state) [])
    (grows : ∀ state, state.defined ≤ (draft state).stage.defined)
    (marked : ∀ state, ∀ label ∈ marks (draft state).directives, state.defined ≤ label) :
    SparesAll base action := by
  intro state value later since equation
  rw [gives state later equation]
  exact ⟨since.advance (grows state) nofun fun label member => .inr (marked state label member),
    trivial⟩

/-- A directive may mark only labels that stand for labels of the body. -/
theorem spares_emit {directive : Directive}
    (marked : ∀ label ∈ marks [directive], base.MayMark label) :
    SparesAll base (emit directive) := by
  intro state value later since equation
  obtain ⟨given, before, spared⟩ := since.given
  cases equation
  refine ⟨⟨since.grows, since.defined, since.named, given ++ [directive], ?_, ?_⟩, trivial⟩
  · rw [Array.toList_push, before, List.append_assoc]
  · rw [marks_append]
    exact List.forall_mem_append.mpr ⟨spared, marked⟩

/-- Operations mark nothing. -/
theorem spares_op (operation : Bytecode.Op Nat) : SparesAll base (op operation) :=
  spares_emit nofun

/-- A label that may be given a place is given one. -/
theorem spares_mark {label : Nat} (may : base.MayMark label) :
    SparesAll base (emit (.markLabel label)) :=
  spares_emit (List.forall_mem_singleton.mpr may)

/-- Taking operands marks nothing. -/
theorem spares_pop (count : Nat) : SparesAll base (pop count) :=
  spares_modify (fun _ => rfl) (fun _ => rfl) fun _ => rfl

/-- Nor does a transfer. -/
theorem spares_transfer : SparesAll base transfer :=
  spares_modify (fun _ => rfl) (fun _ => rfl) fun _ => rfl

/-- Nor does entering a block. -/
theorem spares_enter (opener : Nat) (type : BlockType) (branchArity : Nat) :
    SparesAll base (enter opener type branchArity) :=
  spares_modify (fun _ => rfl) (fun _ => rfl) fun _ => rfl

/-- A new label for one of the body may be given a place, since it has not been defined before. -/
theorem spares_defineFor (bodyLabel : Nat) :
    Spares base (defineFor bodyLabel) base.MayMark := by
  intro state label later since equation
  rw [defineFor_apply] at equation
  cases equation
  refine ⟨since.advance (Nat.le_succ _) ?_ nofun, .inr since.grows⟩
  exact List.forall_mem_singleton.mpr ⟨Nat.le_refl _, Nat.lt_succ_self _⟩

/-- A label that stands for one of the body may be marked. -/
theorem spares_labelFor (site : Site) (position bodyLabel : Nat) :
    Spares base (labelFor site position bodyLabel) base.MayMark := by
  intro state label later since finds
  obtain ⟨rfl, member⟩ := findsLabel_labelFor site _ _ _ _ _ finds
  exact ⟨since, since.named label member⟩

/-- So may the label of a block. -/
theorem spares_blockLabel (site : Site) (opener : Nat) :
    Spares base (blockLabel site opener) base.MayMark := by
  intro state label later since finds
  obtain ⟨rfl, member⟩ := findsLabel_blockLabel site _ _ _ _ finds
  exact ⟨since, since.named label member⟩

/-- Where the second arm starts, its label may be marked. -/
theorem spares_armLabel (site : Site) (position : Nat) :
    SparesAll base (armLabel site position) := by
  unfold armLabel
  split
  · exact spares_pure trivial
  · exact spares_throw _

/-- Finding a destination marks nothing. -/
theorem spares_destination (site : Site) (branch : Branch) :
    SparesAll base (destination site branch) := by
  intro state target later since finds
  obtain rfl := destination_inspects finds
  exact ⟨since, trivial⟩

/-- Nor does finding several. -/
theorem spares_destinations (site : Site) (branches : List Branch) :
    SparesAll base (branches.mapM (destination site)) := by
  intro state targets later since finds
  obtain rfl := destinations_inspect finds
  exact ⟨since, trivial⟩

/-! ## Branches -/

/-- Nor does removing operands. -/
theorem spares_unwind (removal : Unwind) : SparesAll base (unwind removal) :=
  (spares_pure trivial).ite (spares_op _)

/-- **A conditional branch spares labels**: one that it marks has just been defined. -/
theorem spares_branchIf (label : Nat) (removal : Unwind) :
    SparesAll base (branchIf label removal) := by
  have secluded (state : State) := secluded_conditional (label, removal) state.stage
  refine spares_draft (fun state later equation => ?_) (fun state => (secluded state).grows)
    fun state other member => ((secluded state).fresh other member).1
  rw [branchIf_apply (label, removal)] at equation
  cases equation
  rfl

/-- **So does a branch by selector**, whose landing pads have labels of their own. -/
theorem spares_branchTable (targets : List (Nat × Unwind)) (fallback : Nat × Unwind) :
    SparesAll base (branchTable targets fallback) := by
  have secluded (state : State) := secluded_selection targets fallback state.stage
  refine spares_draft (fun state later equation => ?_) (fun state => (secluded state).grows)
    fun state other member => ((secluded state).fresh other member).1
  rw [branchTable_apply] at equation
  cases equation
  rfl

/-! ## Instructions -/

/-- An instruction without block structure marks nothing. -/
theorem spares_plain (site : Site) (instruction : PlainInstruction) :
    SparesAll base (plain site instruction) := by
  cases violation : instruction.violation? site with
  | some error =>
      intro state value later since equation
      rw [plain_violation violation] at equation
      cases equation
  | none =>
      have disciplined (state : State) :=
        instruction.disciplined_draft site (baseOf state.frames) state.stage
      refine @spares_draft _ _
        (fun state => instruction.draft site (baseOf state.frames) state.stage) ?_ ?_ ?_
      · intro state later equation
        rw [plain_apply violation] at equation
        cases equation
        rfl
      · intro state
        rw [(disciplined state).counted]
        exact Nat.le_add_right _ _
      · intro state label member
        exact (List.mem_range'_1.mp ((disciplined state).placed.mem_iff.mp member)).1

/-- An opener must have been linked. -/
theorem SparesAll.afterLinked {action : Emitter β} (spares : SparesAll base action) (site : Site)
    (position : Nat) (finish : Option Nat) :
    SparesAll base (do
      if finish.isNone then unlinked site position
      action) := by
  have refuses : SparesAll base (unlinked site position : Emitter Unit) := spares_throw _
  exact Spares.ite (refuses.bind fun _ _ => spares) spares

/-- **Every instruction spares labels.** -/
theorem spares_instruction (site : Site) (position : Nat) (instruction : Instruction) :
    SparesAll base (Emitter.instruction site position instruction) := by
  cases instruction with
  | plain instruction => exact spares_plain site instruction
  | block type label finish =>
      exact SparesAll.afterLinked ((spares_defineFor label).bind fun _ _ =>
        spares_enter position type type.arity) site position finish
  | loop type label finish =>
      exact (spares_defineFor label).bind fun start may => (spares_mark may).bind fun _ _ =>
        spares_enter position type 0
  | ifThen type label finish otherwise =>
      refine SparesAll.afterLinked ((spares_pop 1).bind fun _ _ =>
        (spares_defineFor label).bind fun exit _ => ?_) site position finish
      cases otherwise with
      | none =>
          exact (spares_op _).bind fun _ _ => spares_enter position type type.arity
      | some arm =>
          exact (spares_armLabel site arm).bind fun second _ =>
            (spares_defineFor second).bind fun _ _ => (spares_op _).bind fun _ _ =>
              spares_enter position type type.arity
  | otherwise label opener =>
      refine (spares_blockLabel site opener).bind fun exit _ =>
        (spares_labelFor site position label).bind fun second may => (spares_op _).bind fun _ _ =>
          (spares_mark may).bind fun _ _ => spares_get.bind fun state _ => ?_
      cases state.frames.head? with
      | none => exact spares_throw _
      | some frame => exact spares_modify (fun _ => rfl) (fun _ => rfl) fun _ => rfl
  | finish opener =>
      cases opener with
      | none => exact spares_op _
      | some opener =>
          refine spares_get.bind fun state _ => ?_
          cases state.frames with
          | nil => exact spares_throw _
          | cons frame frames =>
              have leaves : SparesAll base (modifyThe State fun state =>
                  { state with height := frame.base + frame.arity, reachable := frame.live }) :=
                spares_modify (fun _ => rfl) (fun _ => rfl) fun _ => rfl
              have marks := (spares_blockLabel site opener).bind fun exit may =>
                (spares_mark may).bind fun _ _ => leaves
              have pops : SparesAll base (modify fun state : State =>
                  { state with frames := frames }) :=
                spares_modify (fun _ => rfl) (fun _ => rfl) fun _ => rfl
              exact pops.bind fun _ _ => Spares.ite leaves marks
  | branch target =>
      exact (spares_destination site target).bind fun destination _ =>
        (spares_unwind _).bind fun _ _ => (spares_op _).bind fun _ _ => spares_transfer
  | branchIf target =>
      exact (spares_pop 1).bind fun _ _ => (spares_destination site target).bind fun _ _ =>
        spares_branchIf _ _
  | branchTable targets fallback =>
      exact (spares_pop 1).bind fun _ _ =>
        (spares_destinations site targets).bind fun _ _ =>
          (spares_destination site fallback).bind fun _ _ =>
            (spares_branchTable _ _).bind fun _ _ => spares_transfer

/-- **So do instructions in order.** -/
theorem spares_instructions (site : Site) (position : Nat) (instructions : List Instruction) :
    SparesAll base (Emitter.instructions site position instructions) := by
  induction instructions generalizing position with
  | nil => exact spares_pure trivial
  | cons first rest restInduction =>
      exact (spares_instruction site position first).bind fun _ _ => restInduction (position + 1)

end Emitter

/-! ## Emission up to an instruction -/

/-- **Whether emission of a function comes to a state** before the instruction at a position. -/
def Site.ComesTo (site : Site) (position : Nat) (state : State) : Prop :=
  Emitter.instructions site 0 (site.body.instructions.toList.take position) (Emitter.opened site) =
    .ok () state

/-- States are compared with the first one, in which no label stands for one of the body. -/
theorem Site.ComesTo.since {site : Site} {position : Nat} {state : State}
    (comes : site.ComesTo position state) : (Emitter.opened site).Since state := by
  have start : (Emitter.opened site).Since (Emitter.opened site) :=
    .start fun label member => absurd member List.not_mem_nil
  exact (Emitter.spares_instructions site 0 _ _ _ _ start comes).1

/-- **Emission of a function that is not refused** comes to every instruction and goes on after it.
What it gives from there on gives no places to the labels that are defined then, except to those
that stand for labels of the body. -/
theorem Site.exists_stop {site : Site} (succeeds : (scriptOfFunction site).failure = none)
    {position : Nat} {instruction : Instruction}
    (found : site.body.instructions[position]? = some instruction) :
    ∃ state later back, site.ComesTo position state ∧ site.ComesTo (position + 1) later ∧
      Emitter.instruction site position instruction state = .ok () later ∧
      (∀ label ∈ state.named, label < state.defined) ∧
      (scriptOfFunction site).directives = later.directives.toList ++ back ∧
      ∀ label ∈ marks back, later.MayMark label := by
  rw [← Array.getElem?_toList] at found
  obtain ⟨inside, found⟩ := List.getElem?_eq_some_iff.mp found
  have front : (site.body.instructions.toList.take position).length = position :=
    List.length_take_of_le (Nat.le_of_lt inside)
  have whole : site.body.instructions.toList = site.body.instructions.toList.take position ++
      instruction :: site.body.instructions.toList.drop (position + 1) := by
    rw [← found, ← List.drop_eq_getElem_cons inside, List.take_append_drop]
  unfold scriptOfFunction at succeeds ⊢
  cases emitted : Emitter.function site {} with
  | error error last =>
      rw [emitted] at succeeds
      cases succeeds
  | ok value last =>
      rw [Emitter.function_apply] at emitted
      obtain ⟨_, ended, follows, ends⟩ := bind_eq_ok.mp emitted
      cases ends
      rw [whole, Emitter.instructions_append, Emitter.instructions_cons, front, Nat.zero_add]
        at follows
      obtain ⟨_, state, comes, follows⟩ := bind_eq_ok.mp follows
      obtain ⟨_, later, here, follows⟩ := bind_eq_ok.mp follows
      have before := Site.ComesTo.since comes
      have after := (Emitter.spares_instruction site position _ _ _ _ before here).1
      -- What comes later is compared with the state after the instruction.
      obtain ⟨given, equation, spared⟩ :=
        (Emitter.spares_instructions site _ _ _ _ _ (.start after.defined) follows).1.given
      refine ⟨state, later, given ++ [.endFunction], comes, ?_, here, before.defined, ?_, ?_⟩
      · unfold Site.ComesTo
        rw [List.take_succ_eq_append_getElem inside, found, Emitter.instructions_append,
          bind_of_ok _ comes, front, Nat.zero_add, Emitter.instructions_cons, bind_of_ok _ here]
        rfl
      · rw [← List.append_assoc, ← equation]
        exact Array.toList_push
      · rw [marks_append]
        exact List.forall_mem_append.mpr ⟨spared, nofun⟩

end WasmCompiler.Emission
