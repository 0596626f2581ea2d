import WasmCompiler.Proofs.Independence
import WasmCompiler.Proofs.Lookups

/-! # Index spaces of functions

A module numbers its functions through one list: the signature indices of the imported functions,
followed by those of the defined ones. An assembly looks among its imports for a function index, and
counts on from them for the functions that it has built. Both ways of counting agree, wherever the
imports of functions stand between others.

* **`Declarations.ImportsFunction`** — an import is that of a function index;
* **`Module.BuiltAt.signature?_eq`** — the signature of a built function is the one that its index
  has in the module;
* **`index_spaces_survive`** — an index means in the assembly of a module what it means there. -/

namespace WasmCompiler

open Bytecode (Assembly Function)
open Emission

/-! ## Imported functions -/

/-- The items that a filter lets through are numbered by those before them that it lets through. -/
theorem filter_getElem?_eq_some {α : Type} {keeps : α → Bool} {items : List α} {index : Nat}
    {item : α} :
    (items.filter keeps)[index]? = some item ↔
      ∃ before after, items = before ++ item :: after ∧ keeps item = true ∧
        before.countP keeps = index := by
  constructor
  · intro found
    induction items generalizing index with
    | nil => cases found
    | cons first rest restInduction =>
        by_cases kept : keeps first = true
        · rw [List.filter_cons_of_pos kept] at found
          cases index with
          | zero =>
              cases found
              exact ⟨[], rest, rfl, kept, rfl⟩
          | succ index =>
              obtain ⟨before, after, rfl, keepsItem, count⟩ := restInduction found
              refine ⟨first :: before, after, rfl, keepsItem, ?_⟩
              rw [List.countP_cons_of_pos kept, count]
        · rw [List.filter_cons_of_neg kept] at found
          obtain ⟨before, after, rfl, keepsItem, count⟩ := restInduction found
          refine ⟨first :: before, after, rfl, keepsItem, ?_⟩
          rw [List.countP_cons_of_neg kept, count]
  · rintro ⟨before, after, rfl, keepsItem, rfl⟩
    rw [List.filter_append, List.filter_cons_of_pos keepsItem, List.countP_eq_length_filter,
      List.getElem?_append_right (Nat.le_refl _), Nat.sub_self]
    rfl

/-- **Whether an import is that of a function index**: it imports a function, and as many imports
before it do as the index says, whatever else is imported between them. -/
def Declarations.ImportsFunction (declarations : Declarations) (index : Nat) (entry : Import) :
    Prop :=
  ∃ before after, declarations.imports = before ++ entry :: after ∧
    entry.functionType?.isSome = true ∧
    before.countP (fun entry => entry.functionType?.isSome) = index

/-- **A function is imported by an entry** exactly if that many entries before it import functions.
-/
theorem Declarations.importedFunctions_getElem?_eq_some {declarations : Declarations} {index : Nat}
    {entry : Import} :
    declarations.importedFunctions[index]? = some entry ↔
      declarations.ImportsFunction index entry :=
  filter_getElem?_eq_some

/-! ## Defined functions -/

/-- **The signature of a built function** is the one that its index has in the module. -/
theorem Module.BuiltAt.signature?_eq {module : Module} {position : Nat} {function : Function}
    (built : module.BuiltAt position function) :
    module.signature? (module.importedFunctionCount + position) = some function.signature := by
  obtain ⟨typeIndex, signature, body, typed, declares, -, builds⟩ := built
  obtain ⟨-, same, -⟩ := builds.heads
  rw [Program.signature?_add, typed, Option.bind_some, declares, same]

/-- There is no signature outside the index space. -/
theorem Module.signature?_eq_none {module : Module} {index : Nat}
    (outside : module.functionCount ≤ index) : module.signature? index = none := by
  have undeclared : module.functionType? index = none := by
    refine List.getElem?_eq_none ?_
    rw [List.length_append]
    exact outside
  rw [Module.signature?, undeclared]
  rfl

namespace Module.BuiltInto

variable {module : Module} {assembly : Assembly} (built : module.BuiltInto assembly)

include built

/-- The signature indices of imported functions are those of the module. -/
theorem importedFunctionTypes :
    assembly.importedFunctionTypes = module.importedFunctionTypes :=
  congrArg Declarations.importedFunctionTypes built.declarations

/-- There are as many imported functions as in the module. -/
theorem importedFunctionCount :
    assembly.importedFunctionCount = module.importedFunctionCount :=
  congrArg Declarations.importedFunctionCount built.declarations

/-- An index below the imported functions is that of none that is defined. -/
theorem function?_eq_none {index : Nat} (imported : index < module.importedFunctionCount) :
    assembly.function? index = none := by
  rw [Assembly.function?, built.importedFunctionCount, if_neg (Nat.not_le_of_lt imported)]

/-- Other indices count on from the imported functions. -/
theorem function?_add (position : Nat) :
    assembly.function? (module.importedFunctionCount + position) =
      assembly.functions[position]? := by
  rw [Assembly.function?, built.importedFunctionCount, if_pos (Nat.le_add_right _ _),
    Nat.add_sub_cancel_left]

/-- **Signatures agree**: those of imported functions are looked up, those of defined functions were
looked up when these were built. -/
theorem signature?_eq (index : Nat) : assembly.signature? index = module.signature? index := by
  have types : assembly.types = module.types := congrArg Declarations.types built.declarations
  rcases index_cases module index with imported | ⟨position, rfl⟩
  · have below : index < module.importedFunctionTypes.length := Nat.lt_of_not_le imported
    rw [Assembly.signature?, built.importedFunctionTypes, types, Module.signature?,
      Module.functionType?, List.getElem?_append_left below, List.getElem?_eq_getElem below]
    rfl
  · have past : module.importedFunctionTypes[module.importedFunctionCount + position]? = none :=
      List.getElem?_eq_none (Nat.le_add_right _ _)
    rw [Assembly.signature?, built.importedFunctionTypes, past]
    simp only [built.function?_add]
    cases found : assembly.functions[position]? with
    | some function => exact (built.builds position function found).signature?_eq.symm
    | none =>
        -- There is no function because there is no body, and then no signature index either.
        have missing : module.functions.length ≤ position := by
          rw [built.counts, ← built.size]
          exact Array.getElem?_eq_none_iff.mp found
        rw [Program.signature?_add, List.getElem?_eq_none missing]
        rfl

end Module.BuiltInto

/-- **Whether a function index means in an assembly what it means in a module.** -/
structure Module.KeepsIndex (module : Module) (assembly : Assembly) (index : Nat) : Prop where
  /-- The function has the same signature, if there is one. -/
  signature : assembly.signature? index = module.signature? index
  /-- There is none if there are fewer functions. -/
  outside : module.functionCount ≤ index → assembly.signature? index = none
  /-- The first indices are those of imported functions. -/
  imported : (assembly.importedFunction? index).isSome ↔ index < module.importedFunctionCount
  /-- These are in the order of the imports. -/
  order : ∀ entry, assembly.importedFunction? index = some entry ↔
    module.ImportsFunction index entry
  /-- The other indices are those of defined functions. -/
  defined : (assembly.function? index).isSome ↔
    module.importedFunctionCount ≤ index ∧ index < module.functionCount
  /-- These have that index and the signature that it has in the module, and are built from their
  bodies. -/
  built : ∀ function, assembly.function? index = some function →
    function.index = index ∧ module.signature? index = some function.signature ∧
      ∃ body, module.bodies[index - module.importedFunctionCount]? = some body ∧
        function.locals = body.locals ∧
        Site.Builds ⟨module, index, function.signature, body⟩ function

/-- **The index spaces of a module survive compilation.** In the assembly that a module compiles to,
every index has the signature that it has in the module, and none outside its functions. The first
indices are those of the imported functions in the order of their imports, and the others those of
the defined functions, each with its index, its signature, and the locals and the code emitted from
its body. -/
theorem index_spaces_survive {module : Module} {name : String} {assembly : Assembly}
    (compiles : module.compile name = .ok assembly) (index : Nat) :
    module.KeepsIndex assembly index := by
  have into := Module.builtInto_of_compile compiles
  have importedFunctions : assembly.importedFunctions = module.importedFunctions :=
    congrArg Declarations.importedFunctions into.declarations
  constructor
  case signature => exact into.signature?_eq index
  case outside =>
    intro outside
    rw [into.signature?_eq]
    exact Module.signature?_eq_none outside
  case imported =>
    rw [Assembly.importedFunction?, importedFunctions, isSome_getElem?,
      Machine.length_importedFunctions]
    rfl
  case order =>
    intro entry
    rw [Assembly.importedFunction?, importedFunctions]
    exact Declarations.importedFunctions_getElem?_eq_some
  case defined =>
    rcases index_cases module index with imported | ⟨position, rfl⟩
    · rw [into.function?_eq_none (Nat.lt_of_not_le imported)]
      simp [imported]
    · rw [into.function?_add, isSome_getElem?, into.size, ← into.counts, Module.functionCount]
      omega
  case built =>
    intro function found
    rcases index_cases module index with imported | ⟨position, rfl⟩
    · rw [into.function?_eq_none (Nat.lt_of_not_le imported)] at found
      cases found
    · rw [into.function?_add] at found
      have built := into.builds position function found
      have signature := built.signature?_eq
      obtain ⟨_, _, body, -, -, bodied, builds⟩ := built
      obtain ⟨sameIndex, sameSignature, sameLocals⟩ := builds.heads
      rw [Nat.add_sub_cancel_left]
      exact ⟨sameIndex, signature, body, bodied, sameLocals, sameSignature ▸ builds⟩

/-- A module that imports two functions, with a memory and a global before and between them. -/
def interleaved : Module where
  types := [⟨[], [.i32]⟩, ⟨[.i32], []⟩]
  imports := [⟨"host", "memory", .memory ⟨1, none⟩⟩, ⟨"host", "first", .function 0⟩,
    ⟨"host", "limit", .global ⟨.i32, false⟩⟩, ⟨"host", "second", .function 1⟩]
  functions := [0]
  bodies := [(Code.plain 40 (.getGlobal 0) (.plain 42 (.call 1) (.plain 44 (.call 0) .empty))).link
    [] 46]

/-- Its second function index is that of the import which comes last, its third one is defined. -/
theorem index_spaces_survive_interleaved :
    ∃ assembly, interleaved.compile "interleaved" = .ok assembly ∧
      (∀ index, interleaved.KeepsIndex assembly index) ∧
      assembly.importedFunction? 1 = some ⟨"host", "second", .function 1⟩ ∧
      assembly.function? 2 = some
        ⟨2, ⟨[], [.i32]⟩, [], #[.loadGlobal 0, .call 1, .call 0, .ret]⟩ ∧
      assembly.signature? 1 = some ⟨[.i32], []⟩ ∧ assembly.signature? 3 = none := by
  have compiles : interleaved.compile "interleaved" = .ok
      { toDeclarations := interleaved.toDeclarations
        name := "interleaved"
        functions := #[⟨2, ⟨[], [.i32]⟩, [], #[.loadGlobal 0, .call 1, .call 0, .ret]⟩] } := rfl
  have keeps := index_spaces_survive compiles
  exact ⟨_, compiles, keeps, rfl, rfl, rfl, (keeps 3).outside (by decide)⟩

end WasmCompiler
