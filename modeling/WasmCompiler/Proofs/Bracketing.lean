import Mathlib.Data.List.Nodup
import WasmCompiler.Proofs.Invocations

/-! # Directives as a builder gets them

Whatever follows the directives of a module, and wherever it refuses one, gets them in order: the
declarations first, then functions one after the other in the order of their indices, and inside a
function only labels that it has defined. A label gets at most one place, and where a function is
closed, all of its labels have got one.

* **`Ordered`** — directives inside a function name only labels defined there before;
* **`Bracketed`** — functions are opened and closed in turn;
* **`givenTo`** — the directives that a builder gets, up to one that it refuses;
* **`builders_get_brackets`** — these are bracketed after the declarations. -/

namespace WasmCompiler.Emission

open Bytecode (Assembler)
open Bytecode.Assembler (opening)

/-! ## Labels inside a function -/

namespace Directive

/-- Whether a directive stands inside a function. -/
def isInner : Directive → Bool
  | .declareModule _ | .beginFunction _ _ | .endFunction => false
  | _ => true

/-- The labels that a directive names: to branch to them or to give them a place. -/
def labels : Directive → List Nat
  | .markLabel label => [label]
  | .op operation => operation.targets
  | _ => []

end Directive

/-- **Whether directives stand inside a function and name only labels defined before**, which are
numbered in the order of their definitions. -/
def Ordered : (defined : Nat) → List Directive → Prop
  | _, [] => True
  | defined, directive :: rest =>
      directive.isInner = true ∧ (∀ label ∈ directive.labels, label < defined) ∧
        Ordered (defined + definitions [directive]) rest

/-- Drafts use labels in order. -/
theorem Orderly.ordered {defined : Nat} {directives : List Directive}
    (orderly : Orderly defined directives) : Ordered defined directives := by
  induction directives generalizing defined with
  | nil => trivial
  | cons directive rest restInduction =>
      have nothing : ∀ label ∈ ([] : List Nat), label < defined := List.forall_mem_nil _
      cases directive with
      | defineLabel => exact ⟨rfl, nothing, restInduction orderly⟩
      | markLabel label =>
          exact ⟨rfl, List.forall_mem_singleton.mpr orderly.1, restInduction orderly.2⟩
      | op op => exact ⟨rfl, orderly.1, restInduction orderly.2⟩
      | call callee signature => exact ⟨rfl, nothing, restInduction orderly⟩
      | callIndirect typeIndex signature => exact ⟨rfl, nothing, restInduction orderly⟩
      | _ => exact orderly.elim

/-- So does every front of them. -/
theorem Ordered.front {defined : Nat} {front back : List Directive}
    (ordered : Ordered defined (front ++ back)) : Ordered defined front := by
  induction front generalizing defined with
  | nil => trivial
  | cons directive front frontInduction =>
      exact ⟨ordered.1, ordered.2.1, frontInduction ordered.2.2⟩

/-- Declarations of locals come before. -/
theorem Ordered.afterLocals {directives : List Directive} (ordered : Ordered 0 directives)
    (locals : List ValueType) : Ordered 0 (locals.map .declareLocal ++ directives) := by
  induction locals with
  | nil => exact ordered
  | cons type locals localsInduction =>
      exact ⟨rfl, List.forall_mem_nil _, localsInduction⟩

/-- Declarations of locals mark no labels. -/
@[simp] theorem marks_locals (locals : List ValueType) : marks (locals.map .declareLocal) = [] := by
  induction locals with
  | nil => rfl
  | cons type locals localsInduction => exact localsInduction

/-- Declarations of locals define no labels. -/
@[simp] theorem definitions_locals (locals : List ValueType) :
    definitions (locals.map .declareLocal) = 0 := by
  induction locals with
  | nil => rfl
  | cons type locals localsInduction => exact localsInduction

/-! ## Functions in turn -/

/-- **Whether directives may follow the opening of a function** up to its end: they name labels in
order and give none a place twice. -/
structure Inside (directives : List Directive) : Prop where
  /-- Labels are named in order. -/
  ordered : Ordered 0 directives
  /-- No label gets two places. -/
  once : (marks directives).Nodup

/-- The front of directives inside a function is inside the function. -/
theorem Inside.front {front back : List Directive} (inside : Inside (front ++ back)) :
    Inside front where
  ordered := inside.ordered.front
  once := by
    have once := inside.once
    rw [marks_append] at once
    exact (List.nodup_append.mp once).1

/-- **Whether functions are opened and closed in turn**, the first of which has the given index.
Where a function is closed, each of its labels has got exactly one place. -/
inductive Bracketed : (index : Nat) → List Directive → Prop where
  /-- There are no more directives. -/
  | ended {index : Nat} : Bracketed index []
  /-- The last function is not closed. -/
  | opened {index : Nat} {signature : Signature} {inner : List Directive} (inside : Inside inner) :
      Bracketed index (.beginFunction index signature :: inner)
  /-- A function is closed before the next one. -/
  | closed {index : Nat} {signature : Signature} {inner rest : List Directive}
      (inside : Inside inner)
      (placed : ∀ label < definitions inner, (marks inner).count label = 1)
      (onward : Bracketed (index + 1) rest) :
      Bracketed index (.beginFunction index signature :: (inner ++ .endFunction :: rest))

/-- A front of two lists one after the other ends in one of them. -/
theorem front_append_cases {α : Type} {front first second : List α}
    (isFront : front <+: first ++ second) :
    (∃ back, first = front ++ back) ∨ ∃ more, front = first ++ more ∧ more <+: second := by
  rcases List.prefix_or_prefix_of_prefix isFront (List.prefix_append first second) with
    ⟨back, whole⟩ | ⟨more, rfl⟩
  · exact .inl ⟨back, whole.symm⟩
  · exact .inr ⟨more, rfl, (List.prefix_append_right_inj first).mp isFront⟩

/-- **Every front of bracketed directives is bracketed.** -/
theorem Bracketed.front {index : Nat} {directives front : List Directive}
    (bracketed : Bracketed index directives) (isFront : front <+: directives) :
    Bracketed index front := by
  induction bracketed generalizing front with
  | ended =>
      rw [List.prefix_nil.mp isFront]
      exact .ended
  | opened inside =>
      rcases List.prefix_cons_iff.mp isFront with rfl | ⟨inner, rfl, back, rfl⟩
      · exact .ended
      · exact .opened inside.front
  | closed inside placed onward onwardInduction =>
      -- The front ends before the function, inside it, right before its end, or after it.
      rcases List.prefix_cons_iff.mp isFront with rfl | ⟨inner, rfl, more⟩
      · exact .ended
      · rcases front_append_cases more with ⟨back, rfl⟩ | ⟨last, rfl, isLast⟩
        · exact .opened inside.front
        · rcases List.prefix_cons_iff.mp isLast with rfl | ⟨rest, rfl, isRest⟩
          · rw [List.append_nil]
            exact .opened inside
          · exact .closed inside placed (onwardInduction isRest)

/-! ## Directives of functions -/

/-- The directives of a function may follow its opening. -/
theorem Site.inside_draft (site : Site) (code : Code 0) :
    Inside (site.body.locals.map .declareLocal ++ (site.draft code).directives) where
  ordered := (site.disciplined_draft code).orderly.ordered.afterLocals _
  once := by
    rw [marks_append, marks_locals, List.nil_append]
    exact (site.disciplined_draft code).placed.nodup_iff.mpr List.nodup_range'

/-- At its end each of its labels has got exactly one place. -/
theorem Site.count_marks_draft (site : Site) (code : Code 0) :
    ∀ label < definitions (site.body.locals.map .declareLocal ++ (site.draft code).directives),
      (marks (site.body.locals.map .declareLocal ++ (site.draft code).directives)).count label =
        1 := by
  intro label defined
  have placed := (site.disciplined_draft code).placed
  rw [definitions_append, definitions_locals, Nat.zero_add] at defined
  rw [marks_append, marks_locals, List.nil_append]
  -- The labels that have got a place are those from 0 up to the number of definitions, in some
  -- order.
  refine List.count_eq_one_of_mem (placed.nodup_iff.mpr List.nodup_range') ?_
  rw [placed.mem_iff, List.mem_range'_1]
  exact ⟨Nat.zero_le _, (Nat.zero_add _).symm ▸ defined⟩

/-- **The directives of functions are bracketed**, up to an error. -/
theorem bracketed_scriptOfFunctions {module : Module} {index : Nat} {entries : List (UInt32 × Body)}
    (structured : ∀ entry ∈ entries, Binary.Structured entry.2) :
    Bracketed index (scriptOfFunctions module index entries).directives := by
  induction entries generalizing index with
  | nil => exact .ended
  | cons entry rest restInduction =>
      obtain ⟨typeIndex, body⟩ := entry
      rw [scriptOfFunctions]
      cases declared : module.types[typeIndex.toNat]? with
      | none => exact .ended
      | some signature =>
          simp only
          obtain ⟨code, finish, linked⟩ : ∃ code finish, body = Code.link body.locals code finish :=
            exists_link (structured _ List.mem_cons_self)
          have inside := Site.inside_draft ⟨module, index, signature, body⟩ code
          cases refused : code.violation? ⟨module, index, signature, body⟩ with
          | some error =>
              -- What has been emitted before the refusal is a front of the directives of the draft.
              obtain ⟨front, ⟨back, whole⟩, script⟩ := @scriptOfFunction_refused
                ⟨module, index, signature, body⟩ code finish error linked refused
              rw [script, Script.andThen]
              rw [← whole, ← List.append_assoc] at inside
              exact .opened inside.front
          | none =>
              have onward := @restInduction (index + 1)
                fun other member => structured other (List.mem_cons_of_mem _ member)
              have placed := Site.count_marks_draft ⟨module, index, signature, body⟩ code
              rw [@scriptOfFunction_link ⟨module, index, signature, body⟩ code finish linked
                refused, Script.andThen]
              have bracketed : Bracketed index (.beginFunction index signature :: (_ ++ _)) :=
                .closed inside placed onward
              simpa [Site.directives, opening] using bracketed

/-! ## Builders -/

/-- **The directives that a builder gets**, up to the first one that it refuses, where a builder in
some state refuses a directive or is in another state after it. -/
def givenTo {σ ε : Type} (follow : σ → Directive → Option ε × σ) :
    σ → List Directive → List Directive
  | _, [] => []
  | state, directive :: rest =>
      directive ::
        match follow state directive with
        -- The directive that is refused has been given as well.
        | (some _, _) => []
        | (none, later) => givenTo follow later rest

/-- A builder gets a front of the directives. -/
theorem front_givenTo {σ ε : Type} (follow : σ → Directive → Option ε × σ) (state : σ)
    (directives : List Directive) : givenTo follow state directives <+: directives := by
  induction directives generalizing state with
  | nil => exact List.prefix_rfl
  | cons directive rest restInduction =>
      rw [givenTo]
      refine List.cons_prefix_cons.mpr ⟨rfl, ?_⟩
      cases follow state directive with
      | mk refusal later =>
          cases refusal with
          | some error => exact List.nil_prefix
          | none => exact restInduction later

/-- **Every builder gets the declarations of a decoded module first and once, and then its functions
in turn**, whatever it does with them and wherever it refuses a directive. It gets nothing at all if
the module declares more or fewer functions than it has bodies. -/
theorem builders_get_brackets {bytes : List UInt8} {module : Module}
    (decoded : Binary.decodeModule bytes = .ok module) {σ ε : Type}
    (follow : σ → Directive → Option ε × σ) (start : σ) :
    (givenTo follow start (script module).directives = [] ∧
        module.functions.length ≠ module.bodies.length) ∨
      ∃ rest, givenTo follow start (script module).directives = .declareModule module :: rest ∧
        Bracketed module.importedFunctionCount rest := by
  have wellRead := Binary.wellRead_of_decodeModule decoded
  rw [script]
  by_cases counts : module.functions.length = module.bodies.length
  · right
    have bracketed : Bracketed module.importedFunctionCount (scriptOfFunctions module
        module.importedFunctionCount (module.functions.zip module.bodies)).directives :=
      bracketed_scriptOfFunctions fun _ member => structured_of_mem_zip wellRead member
    rw [if_pos counts]
    simp only [Script.andThen, List.singleton_append, givenTo]
    refine ⟨_, rfl, ?_⟩
    -- A builder may refuse even the declarations, and gets nothing after them then.
    cases follow start (.declareModule module) with
    | mk refusal later =>
        cases refusal with
        | some error => exact .ended
        | none => exact bracketed.front (front_givenTo follow later _)
  · left
    rw [if_neg counts]
    exact ⟨rfl, counts⟩

/-- The assembler gets the functions of a module with blocks and branches in turn. -/
theorem builders_get_brackets_counter :
    Binary.decodeModule counterBytes = .ok counter.module ∧
      ∃ rest, givenTo Assembler.follow (.ofName "counter") (script counter.module).directives =
          .declareModule counter.module :: rest ∧
        Bracketed 0 rest := by
  have decoded : Binary.decodeModule counterBytes = .ok counter.module :=
    decodeModule_of_decodesTo (by decide +kernel)
  refine ⟨decoded, ?_⟩
  rcases builders_get_brackets decoded Assembler.follow (.ofName "counter") with
    ⟨-, differ⟩ | bracketed
  · exact absurd rfl differ
  · exact bracketed

end WasmCompiler.Emission
