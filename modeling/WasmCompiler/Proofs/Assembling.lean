import WasmCompiler.Bytecode.Assembler
import WasmCompiler.Proofs.Labels
import WasmCompiler.Proofs.Placement

/-! # Assembling disciplined directives

An assembler that follows disciplined directives inside a function can close the function: every
label that an operation names has been given a place. The operations of the closed function are
those of the directives, with the places of labels in the labels' stead.

* **`Realizes`** — operations stand where directives ask for them, and labels are where they say;
* **`followAll_function`** — a function with disciplined directives is closed;
* **`realizes_ofDirectives`** — the closed function realizes its directives. -/

namespace WasmCompiler.Bytecode

open Emission

/-! ## Targets -/

namespace Op

variable {α β ε : Type}

/-- The operation with other targets. -/
def relabel (place : α → β) : Op α → Op β
  | .loadArg index => .loadArg index
  | .storeArg index => .storeArg index
  | .loadLocal index => .loadLocal index
  | .storeLocal index => .storeLocal index
  | .loadGlobal index => .loadGlobal index
  | .storeGlobal index => .storeGlobal index
  | .const value => .const value
  | .pop => .pop
  | .select => .select
  | .compare op => .compare op
  | .arith op => .arith op
  | .convert op => .convert op
  | .intrinsic op => .intrinsic op
  | .jump target => .jump (place target)
  | .jumpIf target => .jumpIf (place target)
  | .jumpUnless target => .jumpUnless (place target)
  | .switch targets fallback => .switch (targets.map place) (place fallback)
  | .unwind drop keep => .unwind drop keep
  | .access accessor offset => .access accessor offset
  | .currentMemory => .currentMemory
  | .growMemory => .growMemory
  | .call function => .call function
  | .callIndirect typeIndex => .callIndirect typeIndex
  | .ret => .ret
  | .trap => .trap

/-- A function that succeeds on every item of a list gives the list of its results. -/
theorem mapM_eq_ok_map {patch : α → Except ε β} {place : α → β} {items : List α}
    (succeeds : ∀ item ∈ items, patch item = .ok (place item)) :
    items.mapM patch = .ok (items.map place) := by
  induction items with
  | nil => rfl
  | cons item rest restInduction =>
      rw [List.mapM_cons, succeeds item List.mem_cons_self,
        restInduction fun other member => succeeds other (List.mem_cons_of_mem _ member)]
      rfl

/-- Targets that all have a place are replaced by it. -/
theorem mapTargets_eq_ok {patch : α → Except ε β} {place : α → β} {op : Op α}
    (succeeds : ∀ target ∈ op.targets, patch target = .ok (place target)) :
    op.mapTargets patch = .ok (op.relabel place) := by
  cases op with
  | jump target | jumpIf target | jumpUnless target =>
      simp only [mapTargets, relabel]
      rw [succeeds target List.mem_cons_self]
      rfl
  | switch targets fallback =>
      have listed := mapM_eq_ok_map fun target member =>
        succeeds target (List.mem_append_left _ member)
      have last := succeeds fallback (List.mem_append_right _ List.mem_cons_self)
      simp only [mapTargets, relabel]
      rw [listed, last]
      rfl
  | _ => rfl

end Op

end WasmCompiler.Bytecode

namespace WasmCompiler.Emission

open Bytecode (Op)

/-! ## Directives inside a function -/

/-- The operations that directives add. -/
def emitted : List Directive → List (Op Nat)
  | [] => []
  | .op op :: rest => op :: emitted rest
  | .call function _ :: rest => .call function :: emitted rest
  | .callIndirect typeIndex _ :: rest => .callIndirect typeIndex :: emitted rest
  | _ :: rest => emitted rest

/-- Directives in a row emit their operations in a row. -/
@[simp] theorem emitted_append (first second : List Directive) :
    emitted (first ++ second) = emitted first ++ emitted second := by
  induction first with
  | nil => rfl
  | cons directive rest restInduction => cases directive <;> simp [emitted, restInduction]

/-- Directives for operations emit just those. -/
@[simp] theorem emitted_operations (ops : List (Op Nat)) : emitted (operations ops) = ops := by
  induction ops with
  | nil => rfl
  | cons op rest restInduction => exact congrArg (op :: ·) restInduction

/-- The places of labels after directives, the first of which adds the operation at a position. -/
def placesAfter : (position : Nat) → (places : Array (Option Nat)) → List Directive →
    Array (Option Nat)
  | _, places, [] => places
  | position, places, .defineLabel :: rest => placesAfter position (places.push none) rest
  | position, places, .markLabel label :: rest =>
      placesAfter position (places.setIfInBounds label (some position)) rest
  | position, places, .op _ :: rest => placesAfter (position + 1) places rest
  | position, places, .call _ _ :: rest => placesAfter (position + 1) places rest
  | position, places, .callIndirect _ _ :: rest => placesAfter (position + 1) places rest
  | position, places, _ :: rest => placesAfter position places rest

/-- Labels that are given no place keep the one that they have. -/
theorem placesAfter_of_not_mem {position label : Nat} {places : Array (Option Nat)}
    {directives : List Directive} (defined : label < places.size)
    (unmarked : label ∉ marks directives) :
    (placesAfter position places directives)[label]? = places[label]? := by
  induction directives generalizing position places with
  | nil => rfl
  | cons directive rest restInduction =>
      cases directive with
      | defineLabel =>
          rw [placesAfter, restInduction (by rw [Array.size_push]; omega) unmarked,
            Array.getElem?_push_lt defined, Array.getElem?_eq_getElem defined]
      | markLabel other =>
          have distinct : other ≠ label := fun same => unmarked (same ▸ List.mem_cons_self)
          rw [placesAfter, restInduction (by rwa [Array.size_setIfInBounds])
            fun member => unmarked (List.mem_cons_of_mem _ member)]
          exact Array.getElem?_setIfInBounds_ne distinct
      | _ => exact restInduction defined unmarked

/-- Labels that are given a place have one afterwards. -/
theorem placesAfter_of_mem {position label : Nat} {places : Array (Option Nat)}
    {directives : List Directive} (orderly : Orderly places.size directives)
    (marked : label ∈ marks directives) :
    ∃ place, (placesAfter position places directives)[label]? = some (some place) := by
  induction directives generalizing position places with
  | nil => cases marked
  | cons directive rest restInduction =>
      cases directive with
      | defineLabel =>
          rw [placesAfter]
          refine restInduction ?_ marked
          rwa [Array.size_push]
      | markLabel other =>
          obtain ⟨defined, later⟩ := orderly
          have laterSize : Orderly (places.setIfInBounds other (some position)).size rest := by
            rwa [Array.size_setIfInBounds]
          -- A later mark of the label would overwrite the place, so only the last one counts.
          by_cases again : label ∈ marks rest
          · exact restInduction laterSize again
          · rcases List.mem_cons.mp marked with same | member
            · subst same
              have inside : label < (places.setIfInBounds label (some position)).size := by
                rwa [Array.size_setIfInBounds]
              refine ⟨position, ?_⟩
              rw [placesAfter, placesAfter_of_not_mem inside again,
                Array.getElem?_setIfInBounds_self_of_lt defined]
            · exact absurd member again
      | op op => exact restInduction orderly.2 marked
      | call function signature => exact restInduction orderly marked
      | callIndirect typeIndex signature => exact restInduction orderly marked
      | _ => exact orderly.elim

/-- Operations inside a function name labels that have been defined. -/
theorem Orderly.target_lt {defined target : Nat} {directives : List Directive} {op : Op Nat}
    (orderly : Orderly defined directives) (member : op ∈ emitted directives)
    (names : target ∈ op.targets) : target < defined + definitions directives := by
  induction directives generalizing defined with
  | nil => cases member
  | cons directive rest restInduction =>
      cases directive with
      | defineLabel =>
          have below := restInduction orderly member
          rw [definitions]
          omega
      | markLabel label => exact restInduction orderly.2 member
      | op first =>
          rcases List.mem_cons.mp member with rfl | member
          · exact Nat.lt_of_lt_of_le (orderly.1 target names) (Nat.le_add_right _ _)
          · exact restInduction orderly.2 member
      | call function signature =>
          rcases List.mem_cons.mp member with rfl | member
          · cases names
          · exact restInduction orderly member
      | callIndirect typeIndex signature =>
          rcases List.mem_cons.mp member with rfl | member
          · cases names
          · exact restInduction orderly member
      | _ => exact orderly.elim

/-! ## Realization -/

/-- **Whether operations stand where directives ask for them**, from a position on, given the places
of labels. -/
def Realizes (code : Array (Op Nat)) (place : Nat → Nat) :
    (position : Nat) → List Directive → Prop
  | _, [] => True
  | position, .defineLabel :: rest => Realizes code place position rest
  | position, .markLabel label :: rest => place label = position ∧ Realizes code place position rest
  | position, .op op :: rest =>
      code[position]? = some (op.relabel place) ∧ Realizes code place (position + 1) rest
  | position, .call function _ :: rest =>
      code[position]? = some (.call function) ∧ Realizes code place (position + 1) rest
  | position, .callIndirect typeIndex _ :: rest =>
      code[position]? = some (.callIndirect typeIndex) ∧ Realizes code place (position + 1) rest
  | _, _ :: _ => False

/-- Directives one after the other are realized one after the other. -/
theorem realizes_append {code : Array (Op Nat)} {place : Nat → Nat} {position : Nat}
    {first second : List Directive} :
    Realizes code place position (first ++ second) ↔
      Realizes code place position first ∧
        Realizes code place (position + (emitted first).length) second := by
  induction first generalizing position with
  | nil => simp [Realizes, emitted]
  | cons directive rest restInduction =>
      cases directive <;>
        simp [Realizes, restInduction, emitted, and_assoc, Nat.add_assoc, Nat.add_comm 1]

/-- The operations of directives, with the places that the directives give to labels, realize
them. -/
theorem realizes_placesAfter {directives : List Directive} {position : Nat}
    {places : Array (Option Nat)} {place : Nat → Nat} {code : Array (Op Nat)}
    (orderly : Orderly places.size directives) (unique : (marks directives).Nodup)
    (agrees : ∀ label found,
      (placesAfter position places directives)[label]? = some (some found) → place label = found)
    (same : code.toList.drop position = (emitted directives).map (Op.relabel place)) :
    Realizes code place position directives := by
  -- The places are what assembling has before each directive; a label that was marked keeps its
  -- place because it is marked only once.
  induction directives generalizing position places with
  | nil => trivial
  | cons directive rest restInduction =>
      cases directive with
      | defineLabel =>
          refine restInduction ?_ unique agrees same
          rwa [Array.size_push]
      | markLabel label =>
          obtain ⟨defined, later⟩ := orderly
          obtain ⟨once, unique⟩ := List.nodup_cons.mp unique
          refine ⟨agrees label position ?_, restInduction ?_ unique agrees same⟩
          · rw [placesAfter, placesAfter_of_not_mem (by rwa [Array.size_setIfInBounds]) once,
              Array.getElem?_setIfInBounds_self_of_lt defined]
          · rwa [Array.size_setIfInBounds]
      | op op =>
          refine ⟨?_, restInduction orderly.2 unique agrees (drop_succ_of_drop_eq_cons same)⟩
          rw [← Array.getElem?_toList, getElem?_of_drop_eq_cons same]
      | call function signature =>
          refine ⟨?_, restInduction orderly unique agrees (drop_succ_of_drop_eq_cons same)⟩
          rw [← Array.getElem?_toList, getElem?_of_drop_eq_cons same]
          rfl
      | callIndirect typeIndex signature =>
          refine ⟨?_, restInduction orderly unique agrees (drop_succ_of_drop_eq_cons same)⟩
          rw [← Array.getElem?_toList, getElem?_of_drop_eq_cons same]
          rfl
      | _ => exact orderly.elim

/-- The place of a label after the directives of a function. -/
def placeIn (directives : List Directive) (label : Nat) : Nat :=
  (placesAfter 0 #[] directives)[label]?.join.getD 0

/-- Every label that an operation of a function names is given a place. -/
theorem Disciplined.mem_marks_of_target {draft : Draft} (disciplined : Disciplined 0 draft)
    {op : Op Nat} {target : Nat} (member : op ∈ emitted draft.directives)
    (names : target ∈ op.targets) : target ∈ marks draft.directives := by
  have below := disciplined.orderly.target_lt member names
  rw [disciplined.placed.mem_iff, List.mem_range'_1]
  exact ⟨Nat.zero_le _, below⟩

/-- Its place is the one after the directives of the function. -/
theorem Disciplined.place_of_target {draft : Draft} (disciplined : Disciplined 0 draft)
    {op : Op Nat} {target : Nat} (member : op ∈ emitted draft.directives)
    (names : target ∈ op.targets) :
    (placesAfter 0 #[] draft.directives)[target]? =
      some (some (placeIn draft.directives target)) := by
  have marked := disciplined.mem_marks_of_target member names
  have orderly : Orderly (#[] : Array (Option Nat)).size draft.directives := disciplined.orderly
  obtain ⟨place, equation⟩ := @placesAfter_of_mem 0 target #[] draft.directives orderly marked
  rw [placeIn, equation]
  rfl

end WasmCompiler.Emission

namespace WasmCompiler.Bytecode

open Emission

/-! ## Functions -/

/-- The function that directives build. -/
def Function.ofDirectives (index : Nat) (signature : Signature) (locals : List ValueType)
    (directives : List Directive) : Function :=
  { index := index
    signature := signature
    locals := locals
    code := ((emitted directives).map (Op.relabel (placeIn directives))).toArray }

/-- **The function that disciplined directives build realizes them.** -/
theorem realizes_ofDirectives (index : Nat) (signature : Signature) (locals : List ValueType)
    {draft : Draft} (disciplined : Disciplined 0 draft) :
    Realizes (Function.ofDirectives index signature locals draft.directives).code
      (placeIn draft.directives) 0 draft.directives := by
  have unique : (marks draft.directives).Nodup :=
    disciplined.placed.nodup_iff.mpr List.nodup_range'
  have agrees : ∀ label found,
      (placesAfter 0 #[] draft.directives)[label]? = some (some found) →
        placeIn draft.directives label = found := by
    intro label found equation
    rw [placeIn, equation]
    rfl
  have orderly : Orderly (#[] : Array (Option Nat)).size draft.directives := disciplined.orderly
  exact realizes_placesAfter orderly unique agrees rfl

namespace OpenFunction

/-- The open function after directives inside it. -/
def extend (function : OpenFunction) (directives : List Directive) : OpenFunction :=
  { function with
    code := function.code ++ (emitted directives).toArray
    places := placesAfter function.code.size function.places directives }

/-- A function of disciplined directives can be closed. -/
theorem close_extend (index : Nat) (signature : Signature) (locals : List ValueType)
    {draft : Draft} (disciplined : Disciplined 0 draft) :
    ({ index := index, signature := signature, locals := locals.toArray : OpenFunction }.extend
        draft.directives).close =
      .ok (Function.ofDirectives index signature locals draft.directives) := by
  have patched : (emitted draft.directives).mapM
      (Op.mapTargets ({ index := index, signature := signature, locals := locals.toArray :
        OpenFunction }.extend draft.directives).place) =
      .ok ((emitted draft.directives).map (Op.relabel (placeIn draft.directives))) := by
    refine Op.mapM_eq_ok_map fun op member => Op.mapTargets_eq_ok fun target names => ?_
    have found := disciplined.place_of_target member names
    simp only [place, extend, Array.size_empty]
    rw [found]
  unfold close
  simp only [extend, Array.empty_append] at patched ⊢
  rw [patched]
  rfl

end OpenFunction

namespace Assembler

/-! ## Following directives -/

/-- Directives one after the other are followed one after the other. -/
theorem followAll_append {assembler later : Assembler} {first : List Directive}
    (equation : assembler.followAll first = .ok later) (second : List Directive) :
    assembler.followAll (first ++ second) = later.followAll second := by
  induction first generalizing assembler with
  | nil =>
      cases equation
      rfl
  | cons directive rest restInduction =>
      rw [List.cons_append, followAll]
      rw [followAll] at equation
      split at equation
      · cases equation
      · exact restInduction equation

/-- Orderly directives are followed inside a function. -/
theorem followAll_orderly (assembly : Assembly) {function : OpenFunction}
    {directives : List Directive} (orderly : Orderly function.places.size directives) :
    followAll ⟨assembly, some function⟩ directives =
      .ok ⟨assembly, some (function.extend directives)⟩ := by
  induction directives generalizing function with
  | nil => simp [followAll, OpenFunction.extend, emitted, placesAfter]
  | cons directive rest restInduction =>
      have adds : ∀ op : Op Nat, Orderly function.places.size rest →
          followAll ⟨assembly, some { function with code := function.code.push op }⟩ rest =
            .ok ⟨assembly, some
              { function with
                code := function.code ++ (op :: emitted rest).toArray
                places := placesAfter (function.code.size + 1) function.places rest }⟩ := by
        intro op orderly
        have onward : Orderly ({ function with code := function.code.push op } :
            OpenFunction).places.size rest := orderly
        rw [restInduction onward]
        simp [OpenFunction.extend]
      cases directive with
      | defineLabel =>
          have onward : Orderly ({ function with places := function.places.push none } :
              OpenFunction).places.size rest := by
            rw [Array.size_push]
            exact orderly
          exact restInduction onward
      | markLabel label =>
          have onward : Orderly ({ function with
              places := function.places.setIfInBounds label (some function.code.size) } :
              OpenFunction).places.size rest := by
            rw [Array.size_setIfInBounds]
            exact orderly.2
          exact restInduction onward
      | op op => exact adds op orderly.2
      | call callee signature => exact adds (.call callee) orderly
      | callIndirect typeIndex signature => exact adds (.callIndirect typeIndex) orderly
      | _ => exact orderly.elim

/-- Locals are declared one after the other. -/
theorem followAll_locals (assembly : Assembly) (function : OpenFunction)
    (locals : List ValueType) :
    followAll ⟨assembly, some function⟩ (locals.map .declareLocal) =
      .ok ⟨assembly, some { function with locals := function.locals ++ locals.toArray }⟩ := by
  induction locals generalizing function with
  | nil => simp [followAll]
  | cons type rest restInduction =>
      refine (restInduction { function with locals := function.locals.push type }).trans ?_
      simp

/-- The directives that open a function. -/
def opening (index : Nat) (signature : Signature) (locals : List ValueType) : List Directive :=
  .beginFunction index signature :: locals.map .declareLocal

/-- **A function that is opened and not closed** is followed as long as it is orderly. -/
theorem followAll_opening (assembler : Assembler) (index : Nat) (signature : Signature)
    (locals : List ValueType) {directives : List Directive} (orderly : Orderly 0 directives) :
    assembler.followAll (opening index signature locals ++ directives) =
      .ok ⟨assembler.assembly, some
        ({ index := index, signature := signature, locals := locals.toArray :
          OpenFunction }.extend directives)⟩ := by
  have declared : assembler.followAll (opening index signature locals) =
      .ok ⟨assembler.assembly, some
        { index := index, signature := signature, locals := locals.toArray }⟩ := by
    refine (followAll_locals assembler.assembly { index := index, signature := signature }
      locals).trans ?_
    simp
  rw [followAll_append declared]
  have inside : Orderly ({ index := index, signature := signature, locals := locals.toArray } :
      OpenFunction).places.size directives := orderly
  exact followAll_orderly assembler.assembly inside

/-- **A function with disciplined directives** is added to the assembly. -/
theorem followAll_function (assembler : Assembler) (index : Nat) (signature : Signature)
    (locals : List ValueType) {draft : Draft} (disciplined : Disciplined 0 draft) :
    assembler.followAll
        (opening index signature locals ++ draft.directives ++ [.endFunction]) =
      .ok
        { assembly :=
            { assembler.assembly with
              functions := assembler.assembly.functions.push
                (Function.ofDirectives index signature locals draft.directives) } } := by
  rw [followAll_append (followAll_opening assembler index signature locals disciplined.orderly)]
  simp only [followAll, follow, endFunction]
  rw [OpenFunction.close_extend index signature locals disciplined]

end Assembler

end WasmCompiler.Bytecode
