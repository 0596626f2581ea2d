import Mathlib.Data.List.Induction
import WasmCompiler.Proofs.Assembling
import WasmCompiler.Proofs.Structuring

/-! # Labels that become places

An assembler may be given directives in any order. What it closes a function with depends only on
those since the function was opened: the operations stay in order, and every label becomes the place
that it was given last after its definition. A function that branches to a label without a place is
dropped, and the error names the first such label.

* **`Assembler.after`** — the assembler after directives, those that it refuses included;
* **`GivesPlace`** — the place that directives give a label, told from the directives alone;
* **`getElem?_placesAfter`** — it is the place that the open function keeps for the label;
* **`Closes`** — what a function is closed with;
* **`labels_become_places`** — functions after any directives. -/

namespace WasmCompiler.Emission

open Bytecode (Op)

/-! ## Directives between brackets -/

/-- Whether a directive opens or closes a function. -/
def Directive.isBracket : Directive → Bool
  | .beginFunction _ _ | .endFunction => true
  | _ => false

/-- The locals that directives declare. -/
def declaredLocals : List Directive → List ValueType
  | [] => []
  | .declareLocal type :: rest => type :: declaredLocals rest
  | _ :: rest => declaredLocals rest

/-- Directives in a row declare the locals of both parts. -/
@[simp] theorem declaredLocals_append (first second : List Directive) :
    declaredLocals (first ++ second) = declaredLocals first ++ declaredLocals second := by
  induction first with
  | nil => rfl
  | cons directive rest restInduction => cases directive <;> simp [declaredLocals, restInduction]

/-- **Whether directives give a label a place**: the last mark of the label stands after its
definition, and the place is the number of operations before that mark. -/
def GivesPlace (directives : List Directive) (label place : Nat) : Prop :=
  ∃ earlier later, directives = earlier ++ .markLabel label :: later ∧
    label < definitions earlier ∧ .markLabel label ∉ later ∧ place = (emitted earlier).length

/-- An item in a list with one more at its end is that one or stands in the list before. -/
theorem snoc_eq_append_cons {α : Type} {front earlier later : List α} {last item : α}
    (whole : front ++ [last] = earlier ++ item :: later) :
    (front = earlier ∧ last = item ∧ later = []) ∨
      ∃ others, front = earlier ++ item :: others ∧ later = others ++ [last] := by
  cases later using List.reverseRecOn with
  | nil =>
      obtain ⟨same, equal⟩ := List.append_inj' whole rfl
      exact .inl ⟨same, (List.cons.inj equal).1, rfl⟩
  | append_singleton others final =>
      rw [← List.cons_append, ← List.append_assoc] at whole
      obtain ⟨same, equal⟩ := List.append_inj' whole rfl
      exact .inr ⟨others, same, by rw [equal]⟩

/-- A further mark gives its own label the place where it stands, if the label is defined. -/
theorem givesPlace_mark {front : List Directive} {label place : Nat} :
    GivesPlace (front ++ [.markLabel label]) label place ↔
      label < definitions front ∧ place = (emitted front).length := by
  constructor
  · rintro ⟨earlier, later, whole, defined, last, rfl⟩
    rcases snoc_eq_append_cons whole with ⟨rfl, -, -⟩ | ⟨others, -, rfl⟩
    · exact ⟨defined, rfl⟩
    -- No mark of the label comes after the last one.
    · exact absurd (List.mem_append_right others List.mem_cons_self) last
  · rintro ⟨defined, rfl⟩
    exact ⟨front, [], rfl, defined, List.not_mem_nil, rfl⟩

/-- Any other further directive gives it none. -/
theorem givesPlace_other {front : List Directive} {directive : Directive} {label place : Nat}
    (other : directive ≠ .markLabel label) :
    GivesPlace (front ++ [directive]) label place ↔ GivesPlace front label place := by
  constructor
  · rintro ⟨earlier, later, whole, defined, last, rfl⟩
    rcases snoc_eq_append_cons whole with ⟨-, same, -⟩ | ⟨others, rfl, rfl⟩
    · exact absurd same other
    · exact ⟨earlier, others, rfl, defined, fun member => last (List.mem_append_left _ member), rfl⟩
  · rintro ⟨earlier, later, rfl, defined, last, rfl⟩
    refine ⟨earlier, later ++ [directive], by simp, defined, fun member => ?_, rfl⟩
    rcases List.mem_append.mp member with member | member
    · exact last member
    · exact other (List.mem_singleton.mp member).symm

/-! ## Places that are kept -/

/-- There is a place, or room for one, for every label that is defined. -/
theorem size_placesAfter (position : Nat) (places : Array (Option Nat))
    (directives : List Directive) :
    (placesAfter position places directives).size = places.size + definitions directives := by
  induction directives generalizing position places with
  | nil => rfl
  | cons directive rest restInduction =>
      cases directive <;> simp only [placesAfter, definitions, restInduction]
      · rw [Array.size_push]
        omega
      · rw [Array.size_setIfInBounds]

/-- Places after directives one after the other. -/
theorem placesAfter_append (position : Nat) (places : Array (Option Nat))
    (first second : List Directive) :
    placesAfter position places (first ++ second) =
      placesAfter (position + (emitted first).length) (placesAfter position places first)
        second := by
  induction first generalizing position places with
  | nil => rfl
  | cons directive rest restInduction =>
      cases directive <;>
        simp [placesAfter, emitted, restInduction, Nat.add_assoc, Nat.add_comm 1]

/-- **The place that is kept for a label is the one that the directives give it.** -/
theorem getElem?_placesAfter {directives : List Directive} {label place : Nat} :
    (placesAfter 0 #[] directives)[label]? = some (some place) ↔
      GivesPlace directives label place := by
  induction directives using List.reverseRecOn with
  | nil =>
      refine ⟨fun equation => (by cases equation), ?_⟩
      rintro ⟨earlier, later, whole, -⟩
      cases List.append_ne_nil_of_right_ne_nil earlier (List.cons_ne_nil _ later) whole.symm
  | append_singleton front directive frontInduction =>
      have defined : (placesAfter 0 #[] front).size = definitions front := by
        rw [size_placesAfter, Array.size_empty, Nat.zero_add]
      rw [placesAfter_append, Nat.zero_add]
      cases directive with
      | defineLabel =>
          rw [givesPlace_other Directive.noConfusion, ← frontInduction, placesAfter, placesAfter,
            Array.getElem?_push]
          -- The label that is defined has no place yet.
          split
          · next same =>
              rw [Array.getElem?_eq_none (Nat.le_of_eq same.symm)]
              constructor <;> (intro equation; cases equation)
          · exact Iff.rfl
      | markLabel other =>
          rw [placesAfter, placesAfter]
          by_cases same : other = label
          · subst same
            rw [givesPlace_mark, ← defined, Array.getElem?_setIfInBounds_self]
            split
            · next inside => simp [inside, eq_comm]
            · next outside => simp [outside]
          · rw [Array.getElem?_setIfInBounds_ne same, frontInduction,
              givesPlace_other fun equal => same (Directive.markLabel.inj equal)]
      | _ =>
          rw [givesPlace_other Directive.noConfusion, ← frontInduction]
          rfl

end WasmCompiler.Emission

namespace WasmCompiler.Bytecode

open Emission

/-! ## Targets that cannot be replaced -/

namespace Op

variable {α β ε : Type} {patch : α → Except ε β} {error : ε}

/-- A function on every item of a list fails where it fails first. -/
theorem mapM_eq_error {earlier later : List α} {item : α}
    (succeeds : ∀ other ∈ earlier, ∃ result, patch other = .ok result)
    (fails : patch item = .error error) : (earlier ++ item :: later).mapM patch = .error error := by
  induction earlier with
  | nil =>
      rw [List.nil_append, List.mapM_cons, fails]
      rfl
  | cons other rest restInduction =>
      obtain ⟨result, succeeded⟩ := succeeds other List.mem_cons_self
      rw [List.cons_append, List.mapM_cons, succeeded,
        restInduction fun other member => succeeds other (List.mem_cons_of_mem _ member)]
      rfl

/-- Replacing the targets of an operation fails as it does for the targets alone. -/
theorem mapTargets_eq_error {op : Op α} :
    op.mapTargets patch = .error error ↔ op.targets.mapM patch = .error error := by
  cases op with
  | jump target | jumpIf target | jumpUnless target =>
      simp only [mapTargets, targets, List.mapM_cons, List.mapM_nil]
      cases patch target with
      | error other => constructor <;> (intro equation; cases equation; rfl)
      | ok result => constructor <;> (intro equation; cases equation)
  | switch targets fallback =>
      simp only [mapTargets, Op.targets, List.mapM_append, List.mapM_cons, List.mapM_nil]
      cases targets.mapM patch with
      | error other => constructor <;> (intro equation; cases equation; rfl)
      | ok results =>
          cases patch fallback with
          | error other => constructor <;> (intro equation; cases equation; rfl)
          | ok result => constructor <;> (intro equation; cases equation)
  | _ => constructor <;> (intro equation; cases equation)

/-- So does replacing those of operations in a row. -/
theorem mapM_mapTargets_eq_error {ops : List (Op α)}
    (fails : (ops.flatMap targets).mapM patch = .error error) :
    ops.mapM (mapTargets patch) = .error error := by
  induction ops with
  | nil => cases fails
  | cons op rest restInduction =>
      rw [List.flatMap_cons, List.mapM_append] at fails
      rw [List.mapM_cons]
      cases first : op.mapTargets patch with
      | error other =>
          rw [mapTargets_eq_error] at first
          rw [first] at fails
          cases fails
          rfl
      | ok replaced =>
          -- The targets of the first operation are replaced, so those of another one are not.
          rcases Binary.except_bind_eq_error fails with unreplaced | ⟨results, -, fails⟩
          · cases first.symm.trans (mapTargets_eq_error.mpr unreplaced)
          rcases Binary.except_bind_eq_error fails with fails | ⟨results, -, fails⟩
          · rw [restInduction fails]
            rfl
          · cases fails

end Op

/-! ## Closing a function -/

/-- **What a function is closed with** that has been opened with an index and a signature, given the
directives since then. -/
inductive Closes (index : Nat) (signature : Signature) (directives : List Directive) :
    Except Emission.Error Function → Prop where
  /-- Every label that an operation branches to has a place, which stands in its stead. -/
  | patched {place : Nat → Nat}
      (placed : ∀ op ∈ emitted directives, ∀ label ∈ op.targets,
        GivesPlace directives label (place label)) :
      Closes index signature directives
        (.ok ⟨index, signature, declaredLocals directives,
          ((emitted directives).map (Op.relabel place)).toArray⟩)
  /-- Of the labels that operations branch to, in order, the first one without a place is named. -/
  | unmarked {earlier later : List Nat} {label : Nat}
      (order : (emitted directives).flatMap Op.targets = earlier ++ label :: later)
      (placed : ∀ other ∈ earlier, ∃ place, GivesPlace directives other place)
      (missing : ¬∃ place, GivesPlace directives label place) :
      Closes index signature directives (.error (.unmarkedLabel index label))

/-- **A function cannot be closed exactly if an operation branches to a label without a place.** -/
theorem Closes.fails_iff {index : Nat} {signature : Signature} {directives : List Directive}
    {outcome : Except Emission.Error Function}
    (closes : Closes index signature directives outcome) :
    (∃ error, outcome = .error error) ↔
      ∃ op ∈ emitted directives, ∃ label ∈ op.targets,
        ¬∃ place, GivesPlace directives label place := by
  cases closes with
  | patched placed =>
      refine ⟨nofun, ?_⟩
      rintro ⟨op, member, label, names, missing⟩
      exact absurd ⟨_, placed op member label names⟩ missing
  | @unmarked earlier later label order placed missing =>
      have named : label ∈ (emitted directives).flatMap Op.targets := by
        rw [order]
        exact List.mem_append_right earlier List.mem_cons_self
      obtain ⟨op, member, names⟩ := List.mem_flatMap.mp named
      exact ⟨fun _ => ⟨op, member, label, names, missing⟩, fun _ => ⟨_, rfl⟩⟩

/-- The open function after its opening and further directives. -/
def OpenFunction.afterOpening (index : Nat) (signature : Signature) (directives : List Directive) :
    OpenFunction where
  index := index
  signature := signature
  locals := (declaredLocals directives).toArray
  code := (emitted directives).toArray
  places := placesAfter 0 #[] directives

section

variable {index : Nat} {signature : Signature} {directives : List Directive} {label place : Nat}

/-- A label with a place is found there. -/
theorem place_afterOpening_of_gives (gives : GivesPlace directives label place) :
    (OpenFunction.afterOpening index signature directives).place label = .ok place := by
  simp only [OpenFunction.place, OpenFunction.afterOpening]
  rw [getElem?_placesAfter.mpr gives]

/-- A label without a place is named. -/
theorem place_afterOpening_of_missing (missing : ¬∃ place, GivesPlace directives label place) :
    (OpenFunction.afterOpening index signature directives).place label =
      .error (.unmarkedLabel index label) := by
  simp only [OpenFunction.place, OpenFunction.afterOpening]
  split
  · next place found => exact absurd ⟨place, getElem?_placesAfter.mp found⟩ missing
  · rfl

/-- A place that is found is the one that directives give. -/
theorem join_getElem?_placesAfter :
    (placesAfter 0 #[] directives)[label]?.join = some place ↔
      GivesPlace directives label place := by
  rw [Option.join_eq_some_iff, getElem?_placesAfter]

/-- A label that is not found missing has a place. -/
theorem exists_givesPlace_of_isNone_eq_false
    (found : (placesAfter 0 #[] directives)[label]?.join.isNone = false) :
    ∃ place, (placesAfter 0 #[] directives)[label]?.join = some place ∧
      GivesPlace directives label place := by
  rw [Option.isNone_eq_false_iff, Option.isSome_iff_exists] at found
  obtain ⟨place, found⟩ := found
  exact ⟨place, found, join_getElem?_placesAfter.mp found⟩

variable (index signature)

/-- Operations whose labels all have places are patched. -/
theorem mapM_mapTargets_afterOpening {places : Nat → Nat}
    (placed : ∀ op ∈ emitted directives, ∀ label ∈ op.targets,
      GivesPlace directives label (places label)) :
    (emitted directives).mapM
        (Op.mapTargets (OpenFunction.afterOpening index signature directives).place) =
      .ok ((emitted directives).map (Op.relabel places)) :=
  Op.mapM_eq_ok_map fun op member => Op.mapTargets_eq_ok fun label names =>
    place_afterOpening_of_gives (placed op member label names)

/-- The first label without a place is named. -/
theorem mapM_mapTargets_afterOpening_of_missing {earlier later : List Nat}
    (order : (emitted directives).flatMap Op.targets = earlier ++ label :: later)
    (placed : ∀ other ∈ earlier, ∃ place, GivesPlace directives other place)
    (missing : ¬∃ place, GivesPlace directives label place) :
    (emitted directives).mapM
        (Op.mapTargets (OpenFunction.afterOpening index signature directives).place) =
      .error (.unmarkedLabel index label) := by
  refine Op.mapM_mapTargets_eq_error ?_
  rw [order]
  refine Op.mapM_eq_error (fun other member => ?_) (place_afterOpening_of_missing missing)
  obtain ⟨place, gives⟩ := placed other member
  exact ⟨place, place_afterOpening_of_gives gives⟩

end

/-- **An open function is closed with what the directives since its opening say.** -/
theorem closes_afterOpening (index : Nat) (signature : Signature) (directives : List Directive) :
    Closes index signature directives
      (OpenFunction.afterOpening index signature directives).close := by
  unfold OpenFunction.close
  -- The first label without a place decides, if there is one.
  cases search : ((emitted directives).flatMap Op.targets).find? fun label =>
      (placesAfter 0 #[] directives)[label]?.join.isNone with
  | none =>
      have placed : ∀ op ∈ emitted directives, ∀ label ∈ op.targets,
          GivesPlace directives label (placeIn directives label) := by
        intro op member label names
        have found := List.find?_eq_none.mp search label (List.mem_flatMap.mpr ⟨op, member, names⟩)
        rw [Bool.not_eq_true] at found
        obtain ⟨place, found, gives⟩ := exists_givesPlace_of_isNone_eq_false found
        rw [placeIn, found]
        exact gives
      have patched := mapM_mapTargets_afterOpening index signature placed
      simp only [OpenFunction.afterOpening] at patched ⊢
      rw [patched]
      exact .patched placed
  | some label =>
      obtain ⟨absent, earlier, later, order, before⟩ := List.find?_eq_some_iff_append.mp search
      have placed : ∀ other ∈ earlier, ∃ place, GivesPlace directives other place := by
        intro other member
        have found := before other member
        rw [Bool.not_eq_true'] at found
        obtain ⟨place, -, gives⟩ := exists_givesPlace_of_isNone_eq_false found
        exact ⟨place, gives⟩
      have missing : ¬∃ place, GivesPlace directives label place := by
        rintro ⟨place, gives⟩
        rw [join_getElem?_placesAfter.mpr gives] at absent
        cases absent
      have refused :=
        mapM_mapTargets_afterOpening_of_missing index signature order placed missing
      simp only [OpenFunction.afterOpening] at refused ⊢
      rw [refused]
      exact .unmarked order placed missing

/-! ## Following any directives -/

namespace Assembler

/-- **The assembler after directives**, whether it refuses some of them or not. -/
def after (assembler : Assembler) : List Directive → Assembler
  | [] => assembler
  | directive :: directives => (assembler.follow directive).2.after directives

/-- Following directives in a row is following both parts. -/
theorem after_append (assembler : Assembler) (first second : List Directive) :
    assembler.after (first ++ second) = (assembler.after first).after second := by
  induction first generalizing assembler with
  | nil => rfl
  | cons directive rest restInduction => exact restInduction _

/-- **Directives inside a function** add to it and leave all of the assembly but its declarations.
-/
theorem after_opening (assembler : Assembler) (index : Nat) (signature : Signature)
    {directives : List Directive}
    (inside : ∀ directive ∈ directives, directive.isBracket = false) :
    ∃ declarations,
      assembler.after (.beginFunction index signature :: directives) =
        { assembly := { assembler.assembly with toDeclarations := declarations }
          current := some (.afterOpening index signature directives) } := by
  -- On the last directive, since a state is what the earlier ones have left.
  induction directives using List.reverseRecOn with
  | nil => exact ⟨assembler.assembly.toDeclarations, rfl⟩
  | append_singleton front directive frontInduction =>
      obtain ⟨declarations, built⟩ := frontInduction fun other member =>
        inside other (List.mem_append_left _ member)
      have notBracket := inside directive (List.mem_append_right _ List.mem_cons_self)
      rw [← List.cons_append, after_append, built]
      cases directive with
      | beginFunction index signature => cases notBracket
      | endFunction => cases notBracket
      | declareModule module =>
          refine ⟨module.toDeclarations, ?_⟩
          simp [after, follow, declareModule, OpenFunction.afterOpening, declaredLocals, emitted,
            placesAfter_append, placesAfter]
      | _ =>
          refine ⟨declarations, ?_⟩
          simp [after, follow, declareLocal, defineLabel, markLabel, emit, modifyFunction,
            OpenFunction.afterOpening, declaredLocals, emitted, placesAfter_append, placesAfter]

/-- Whether a function is open after directives, given whether one is before. -/
def leavesOpen : (isOpen : Bool) → List Directive → Bool
  | isOpen, [] => isOpen
  | _, .beginFunction _ _ :: rest => leavesOpen true rest
  | _, .endFunction :: rest => leavesOpen false rest
  | isOpen, _ :: rest => leavesOpen isOpen rest

/-- Whether a function is open is decided by its brackets. -/
theorem isSome_current_after (assembler : Assembler) (directives : List Directive) :
    (assembler.after directives).current.isSome =
      leavesOpen assembler.current.isSome directives := by
  induction directives generalizing assembler with
  | nil => rfl
  | cons directive rest restInduction =>
      rw [after, restInduction]
      cases directive with
      | endFunction =>
          simp only [follow, endFunction, leavesOpen]
          split
          · next closed => rw [closed]; rfl
          · split <;> rfl
      | _ =>
          simp [follow, declareModule, beginFunction, declareLocal, defineLabel, markLabel, emit,
            modifyFunction, leavesOpen]

/-- Outside functions nothing but new declarations changes the assembly, and nothing is refused. -/
theorem follow_outside {assembler : Assembler} (outside : assembler.current = none)
    {directive : Directive} (other : ∀ module, directive ≠ .declareModule module) :
    (assembler.follow directive).1 = none ∧
      (assembler.follow directive).2.assembly = assembler.assembly := by
  cases directive with
  | declareModule module => exact absurd rfl (other module)
  | endFunction => constructor <;> simp [follow, endFunction, outside]
  | _ => exact ⟨rfl, rfl⟩

end Assembler

/-- **Labels become places.** A function that is opened after any directives, even inside another
one that is dropped then, is closed with what the directives since its opening say, and these alone.
Labels are numbered there in the order of their definitions. It takes the locals and the operations
in order, with every label replaced by the place that it was given last after its definition, and is
added after the functions before; or it is dropped, and the first label without a place is named.
Outside functions directives leave the assembly as it is, except for new declarations. -/
theorem labels_become_places :
    (∀ index signature directives, (∀ directive ∈ directives, directive.isBracket = false) →
      ∃ outcome, Closes index signature directives outcome ∧
        ((∃ error, outcome = .error error) ↔
          ∃ op ∈ emitted directives, ∃ label ∈ op.targets,
            ¬∃ place, GivesPlace directives label place) ∧
        ∀ name history,
          let before := (Assembler.ofName name).after history
          let assembler := before.after (.beginFunction index signature :: directives)
          assembler.nextLabel = definitions directives ∧
          (∃ declarations,
            assembler.assembly = { before.assembly with toDeclarations := declarations }) ∧
          assembler.follow .endFunction =
            match outcome with
            | .ok function =>
                (none,
                  { assembly :=
                      { assembler.assembly with
                        functions := before.assembly.functions.push function }
                    current := none })
            | .error error => (some error, { assembly := assembler.assembly, current := none })) ∧
    ∀ name history, Assembler.leavesOpen false history = false →
      ∀ directive, (∀ module, directive ≠ .declareModule module) →
        let assembler := (Assembler.ofName name).after history
        (assembler.follow directive).1 = none ∧
          (assembler.follow directive).2.assembly = assembler.assembly := by
  refine ⟨fun index signature directives inside => ?_,
    fun name history closed directive other => ?_⟩
  · have closes := closes_afterOpening index signature directives
    refine ⟨_, closes, closes.fails_iff, fun name history => ?_⟩
    intro before assembler
    obtain ⟨declarations, built⟩ := before.after_opening index signature inside
    have same : assembler = _ := built
    rw [same]
    refine ⟨?_, ⟨declarations, rfl⟩, ?_⟩
    · have size := size_placesAfter 0 #[] directives
      rwa [Array.size_empty, Nat.zero_add] at size
    · simp only [Assembler.follow, Assembler.endFunction]
      cases (OpenFunction.afterOpening index signature directives).close <;> rfl
  · have outside := ((Assembler.ofName name).isSome_current_after history).trans closed
    rw [Option.isSome_eq_false_iff, Option.isNone_iff_eq_none] at outside
    exact Assembler.follow_outside outside other

/-- A loop with a way out: label 0 is a place before and label 1 one after the branch to it. Label 1
is marked before it is defined as well, which has no effect. -/
def loopDirectives : List Directive :=
  [.defineLabel, .markLabel 0, .markLabel 1, .op (.const (.i32 1)), .defineLabel, .op (.jumpIf 1),
    .op (.jump 0), .markLabel 1, .op .ret]

/-- What comes before the loop: a function, and one that is begun and dropped. -/
def beforeLoop : List Directive :=
  [.beginFunction 0 {}, .op .ret, .endFunction, .beginFunction 7 {}, .defineLabel]

/-- The loop. -/
def loopFunction : Function :=
  ⟨1, {}, [], #[.const (.i32 1), .jumpIf 3, .jump 0, .ret]⟩

/-- The loop is closed with the places of its labels and added after the function before. Outside
functions a further operation changes nothing. -/
theorem labels_become_places_loop :
    let history := beforeLoop ++ .beginFunction 1 {} :: loopDirectives ++ [.endFunction]
    let assembler := (Assembler.ofName "loop").after history
    (∀ directive ∈ loopDirectives, directive.isBracket = false) ∧
      Closes 1 {} loopDirectives (.ok loopFunction) ∧
      assembler.assembly.functions = #[⟨0, {}, [], #[.ret]⟩, loopFunction] ∧
      Assembler.leavesOpen false history = false ∧
      (assembler.follow (.op .ret)).2.assembly = assembler.assembly := by
  have inside : ∀ directive ∈ loopDirectives, directive.isBracket = false := by decide
  obtain ⟨outcome, closes, -, follows⟩ := labels_become_places.1 1 {} loopDirectives inside
  obtain ⟨-, -, ended⟩ := follows "loop" beforeLoop
  have added : outcome = .ok loopFunction := by
    cases outcome with
    | error error => cases congrArg Prod.fst ended
    | ok function =>
        have functions := congrArg (fun result => result.2.assembly.functions.back?) ended
        rw [Array.back?_push] at functions
        exact congrArg Except.ok (Option.some.inj functions).symm
  refine ⟨inside, added ▸ closes, rfl, rfl, ?_⟩
  exact (labels_become_places.2 "loop" _ rfl (.op .ret) nofun).2

end WasmCompiler.Bytecode
