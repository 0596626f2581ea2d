import WasmCompiler.Proofs.Scripts

/-! # Which modules compile

A module compiles exactly if as many functions are declared as there are bodies, and signature
indices and instructions refer only to what there is. Otherwise the error is that of the first
reference that does not hold: of the functions in order, of the signature index before the
instructions, and of the instructions in order, also of those that no run reaches.

* **`Module.Compilable`** — every reference holds;
* **`Module.FirstViolation`** — the error of the first one that does not;
* **`compile_decides`** — compilation tells these apart, and never finds an instruction unlinked or
  a label without a place. -/

namespace WasmCompiler

open Emission

/-! ## References of instructions -/

namespace PlainInstruction

variable (site : Site)

/-- **Whether an instruction of a function refers to what there is.** -/
def Permitted : PlainInstruction → Prop
  | .getLocal index | .setLocal index | .teeLocal index => index.toNat < site.slotCount
  | .getGlobal index => index.toNat < site.module.globalCount
  | .setGlobal index =>
      index.toNat < site.module.globalCount ∧
        ∀ type, site.module.globalType? index.toNat = some type → type.isMutable = true
  | .call function => (site.module.signature? function.toNat).isSome
  | .callIndirect typeIndex => typeIndex.toNat < site.module.types.length
  | _ => True

/-- **The error for an instruction that refers to what there is not.** -/
inductive Refused : PlainInstruction → Error → Prop where
  /-- A parameter or a local is read that there is not. -/
  | getLocal {index : UInt32} (absent : site.slotCount ≤ index.toNat) :
      Refused (.getLocal index) (.localIndexOutOfRange site.index index site.slotCount)
  /-- A parameter or a local is replaced that there is not. -/
  | setLocal {index : UInt32} (absent : site.slotCount ≤ index.toNat) :
      Refused (.setLocal index) (.localIndexOutOfRange site.index index site.slotCount)
  /-- A parameter or a local is replaced and kept that there is not. -/
  | teeLocal {index : UInt32} (absent : site.slotCount ≤ index.toNat) :
      Refused (.teeLocal index) (.localIndexOutOfRange site.index index site.slotCount)
  /-- A global is read that there is not. -/
  | getGlobal {index : UInt32} (absent : site.module.globalCount ≤ index.toNat) :
      Refused (.getGlobal index) (.globalIndexOutOfRange site.index index)
  /-- A global is replaced that there is not. -/
  | setGlobal {index : UInt32} (absent : site.module.globalCount ≤ index.toNat) :
      Refused (.setGlobal index) (.globalIndexOutOfRange site.index index)
  /-- A global is replaced that keeps its value. -/
  | immutable {index : UInt32} {type : GlobalType}
      (found : site.module.globalType? index.toNat = some type) (fixed : type.isMutable = false) :
      Refused (.setGlobal index) (.immutableGlobal site.index index)
  /-- A function is called that there is not. -/
  | call {function : UInt32} (absent : site.module.signature? function.toNat = none) :
      Refused (.call function) (.functionIndexOutOfRange site.index function)
  /-- A signature is expected of a callee that there is not. -/
  | callIndirect {typeIndex : UInt32} (absent : site.module.types.length ≤ typeIndex.toNat) :
      Refused (.callIndirect typeIndex) (.typeIndexOutOfRange typeIndex)

variable {site}

/-- A global has a type exactly if there is one. -/
theorem globalType?_isSome (declarations : Declarations) (index : Nat) :
    (declarations.globalType? index).isSome ↔ index < declarations.globalCount := by
  rw [Declarations.globalType?, Declarations.globalCount, isSome_getElem?, List.length_append,
    List.length_map]

/-- Emission refuses no instruction exactly if it refers to what there is. -/
theorem violation?_eq_none (instruction : PlainInstruction) :
    instruction.violation? site = none ↔ instruction.Permitted site := by
  cases instruction with
  | getLocal index | setLocal index | teeLocal index =>
      simp only [violation?, Permitted]
      split <;> simp_all
  | getGlobal index =>
      have known := globalType?_isSome site.module.toDeclarations index.toNat
      simp only [violation?, Permitted]
      rw [← known]
      cases site.module.globalType? index.toNat <;> simp
  | setGlobal index =>
      have known := globalType?_isSome site.module.toDeclarations index.toNat
      simp only [violation?, Permitted]
      rw [← known]
      cases site.module.globalType? index.toNat <;> simp
  | call function =>
      simp only [violation?, Permitted]
      cases site.module.signature? function.toNat <;> simp
  | callIndirect typeIndex =>
      have known : (site.module.types[typeIndex.toNat]?).isSome ↔
          typeIndex.toNat < site.module.types.length := by
        simp
      simp only [violation?, Permitted]
      rw [← known]
      cases site.module.types[typeIndex.toNat]? <;> simp
  | _ => simp [violation?, Permitted]

/-- There is no global exactly if it has no type. -/
theorem globalType?_eq_none {declarations : Declarations} {index : Nat} :
    declarations.globalType? index = none ↔ declarations.globalCount ≤ index := by
  rw [← Nat.not_lt, ← globalType?_isSome, Bool.not_eq_true, Option.isSome_eq_false_iff,
    Option.isNone_iff_eq_none]

/-- The error with which emission refuses an instruction is the one for its reference. -/
theorem violation?_eq_some {instruction : PlainInstruction} {error : Error} :
    instruction.violation? site = some error ↔ instruction.Refused site error := by
  -- Every instruction that refers to something has one lookup that can fail; replacing a global
  -- can fail in two ways.
  constructor
  · intro refused
    cases instruction with
    | getLocal index | setLocal index | teeLocal index =>
        simp only [violation?] at refused
        split at refused
        · cases refused
        · next absent =>
            cases refused
            first
              | exact .getLocal (Nat.le_of_not_lt absent)
              | exact .setLocal (Nat.le_of_not_lt absent)
              | exact .teeLocal (Nat.le_of_not_lt absent)
    | getGlobal index =>
        simp only [violation?] at refused
        split at refused
        · cases refused
        · next absent =>
            cases refused
            exact .getGlobal (globalType?_eq_none.mp absent)
    | setGlobal index =>
        simp only [violation?] at refused
        split at refused
        · next type found =>
            split at refused
            · cases refused
            · next fixed =>
                cases refused
                exact .immutable found (Bool.eq_false_iff.mpr fixed)
        · next absent =>
            cases refused
            exact .setGlobal (globalType?_eq_none.mp absent)
    | call function =>
        simp only [violation?] at refused
        split at refused
        · cases refused
        · next absent =>
            cases refused
            exact .call absent
    | callIndirect typeIndex =>
        simp only [violation?] at refused
        split at refused
        · cases refused
        · next absent =>
            cases refused
            exact .callIndirect (List.getElem?_eq_none_iff.mp absent)
    | _ => cases refused
  · intro refused
    cases refused with
    | getLocal absent | setLocal absent | teeLocal absent =>
        exact if_neg (Nat.not_lt_of_le absent)
    | getGlobal absent | setGlobal absent =>
        simp only [violation?]
        rw [globalType?_eq_none.mpr absent]
    | immutable found fixed =>
        simp only [violation?]
        rw [found]
        simp [fixed]
    | call absent =>
        simp only [violation?]
        rw [absent]
    | callIndirect absent =>
        simp only [violation?]
        rw [List.getElem?_eq_none absent]

end PlainInstruction

/-! ## References of functions and modules -/

/-- Whether every instruction of a body, the first `limit` ones at least, refers to what there is.
-/
def Body.PermittedBelow (site : Site) (body : Body) (limit : Nat) : Prop :=
  ∀ position < limit, ∀ instruction, body.instructions[position]? = some (.plain instruction) →
    instruction.Permitted site

namespace Module

variable (module : Module)

/-- The site of a defined function by its number among them. -/
def siteOf (position : Nat) (signature : Signature) (body : Body) : Site :=
  ⟨module, module.importedFunctionCount + position, signature, body⟩

/-- **Whether a defined function refers to what there is**: its signature index and every
instruction of its body. -/
def FunctionPermitted (position : Nat) : Prop :=
  ∀ typeIndex body, module.functions[position]? = some typeIndex →
    module.bodies[position]? = some body →
    ∃ signature, module.types[typeIndex.toNat]? = some signature ∧
      body.PermittedBelow (module.siteOf position signature body) body.size

/-- **Whether every reference of a module holds.** -/
structure Compilable : Prop where
  /-- As many functions are declared as there are bodies. -/
  counts : module.functions.length = module.bodies.length
  /-- Every signature index is that of a signature. -/
  types : ∀ typeIndex ∈ module.functions, typeIndex.toNat < module.types.length
  /-- Every instruction of every body refers to what there is. -/
  instructions : ∀ (position : Nat) (typeIndex : UInt32) (signature : Signature) (body : Body)
    (place : Nat) (instruction : PlainInstruction),
    module.functions[position]? = some typeIndex → module.bodies[position]? = some body →
    module.types[typeIndex.toNat]? = some signature →
    body.instructions[place]? = some (.plain instruction) →
    instruction.Permitted (module.siteOf position signature body)

/-- **The error of the first reference that does not hold.** -/
inductive FirstViolation : Error → Prop where
  /-- The numbers of declared functions and of bodies differ. -/
  | counts (differ : module.functions.length ≠ module.bodies.length) :
      FirstViolation (.functionCountMismatch module.functions.length module.bodies.length)
  /-- The functions before refer to what there is, but this signature index does not. -/
  | type {position : Nat} {typeIndex : UInt32}
      (counts : module.functions.length = module.bodies.length)
      (earlier : ∀ other < position, module.FunctionPermitted other)
      (declares : module.functions[position]? = some typeIndex)
      (absent : module.types.length ≤ typeIndex.toNat) :
      FirstViolation (.typeIndexOutOfRange typeIndex)
  /-- The functions and instructions before refer to what there is, but this instruction does
  not. -/
  | instruction {position place : Nat} {typeIndex : UInt32} {signature : Signature} {body : Body}
      {instruction : PlainInstruction} {error : Error}
      (counts : module.functions.length = module.bodies.length)
      (earlier : ∀ other < position, module.FunctionPermitted other)
      (declares : module.functions[position]? = some typeIndex)
      (has : module.bodies[position]? = some body)
      (found : module.types[typeIndex.toNat]? = some signature)
      (before : body.PermittedBelow (module.siteOf position signature body) place)
      (here : body.instructions[place]? = some (.plain instruction))
      (refused : instruction.Refused (module.siteOf position signature body) error) :
      FirstViolation error

end Module

/-! ## What emission refuses -/

/-- The first item of a list for which a function gives something, by its position. -/
theorem findSome?_eq_some_iff_getElem? {α β : Type} {items : List α} {give : α → Option β}
    {given : β} :
    items.findSome? give = some given ↔
      ∃ (position : Nat) (item : α), items[position]? = some item ∧ give item = some given ∧
        ∀ (other : Nat) (earlier : α), other < position → items[other]? = some earlier →
          give earlier = none := by
  rw [List.findSome?_eq_some_iff]
  constructor
  · rintro ⟨before, item, after, rfl, gives, none⟩
    refine ⟨before.length, item, by simp, gives, fun other earlier less found => ?_⟩
    rw [List.getElem?_append_left less] at found
    exact none earlier (List.mem_of_getElem? found)
  · rintro ⟨position, item, found, gives, none⟩
    obtain ⟨inside, rfl⟩ := List.getElem?_eq_some_iff.mp found
    refine ⟨items.take position, items[position], items.drop (position + 1), ?_, gives, ?_⟩
    · rw [← List.drop_eq_getElem_cons inside, List.take_append_drop]
    · intro earlier member
      obtain ⟨other, foundEarlier⟩ := List.mem_iff_getElem?.mp member
      have less : other < position := by
        have bound := (List.getElem?_eq_some_iff.mp foundEarlier).1
        rw [List.length_take] at bound
        omega
      rw [List.getElem?_take_of_lt less] at foundEarlier
      exact none other earlier less foundEarlier

namespace Body

variable {site : Site} {body : Body}

/-- Instructions that are permitted are not refused. -/
theorem permittedBelow_iff {limit : Nat} :
    body.PermittedBelow site limit ↔
      ∀ (other : Nat) (earlier : Instruction), other < limit →
        body.instructions[other]? = some earlier → earlier.violation? site = none := by
  constructor
  · intro permitted other earlier less found
    cases earlier with
    | plain instruction =>
        exact (PlainInstruction.violation?_eq_none instruction).mpr
          (permitted other less instruction found)
    | _ => rfl
  · intro allowed position less instruction found
    exact (PlainInstruction.violation?_eq_none instruction).mp (allowed position _ less found)

/-- A body is refused for nothing exactly if all of it refers to what there is. -/
theorem violation?_eq_none :
    body.violation? site = none ↔ body.PermittedBelow site body.size := by
  rw [Body.violation?, List.findSome?_eq_none_iff, permittedBelow_iff]
  constructor
  · intro allowed other earlier less found
    rw [← Array.getElem?_toList] at found
    exact allowed earlier (List.mem_of_getElem? found)
  · intro allowed instruction member
    obtain ⟨position, found⟩ := List.mem_iff_getElem?.mp member
    rw [Array.getElem?_toList] at found
    exact allowed position instruction (Array.getElem?_eq_some_iff.mp found).1 found

/-- A body is refused for its first instruction that does not refer to what there is. -/
theorem violation?_eq_some {error : Error} :
    body.violation? site = some error ↔
      ∃ place instruction, body.PermittedBelow site place ∧
        body.instructions[place]? = some (.plain instruction) ∧
        instruction.Refused site error := by
  rw [Body.violation?, findSome?_eq_some_iff_getElem?]
  simp only [Array.getElem?_toList]
  constructor
  · rintro ⟨place, instruction, found, refused, earlier⟩
    cases instruction with
    | plain instruction =>
        exact ⟨place, instruction, permittedBelow_iff.mpr earlier, found,
          PlainInstruction.violation?_eq_some.mp refused⟩
    | _ => cases refused
  · rintro ⟨place, instruction, before, found, refused⟩
    exact ⟨place, .plain instruction, found, PlainInstruction.violation?_eq_some.mpr refused,
      permittedBelow_iff.mp before⟩

end Body

namespace Emission

/-- Why emission refuses a function, if it does. -/
def functionViolation? (module : Module) (index : Nat) (entry : UInt32 × Body) : Option Error :=
  match module.types[entry.1.toNat]? with
  | none => some (.typeIndexOutOfRange entry.1)
  | some signature => entry.2.violation? ⟨module, index, signature, entry.2⟩

/-- Functions are refused for the first one that is. -/
theorem violationFrom_eq_findSome? (module : Module) (index : Nat)
    (entries : List (UInt32 × Body)) :
    violationFrom module index entries =
      (entries.zipIdx index).findSome? fun entry =>
        functionViolation? module entry.2 entry.1 := by
  induction entries generalizing index with
  | nil => rfl
  | cons entry rest restInduction =>
      rw [List.zipIdx_cons, List.findSome?_cons, ← restInduction, violationFrom]
      simp only [functionViolation?]
      cases module.types[entry.1.toNat]? with
      | none => rfl
      | some signature =>
          simp only
          cases entry.2.violation? ⟨module, index, signature, entry.2⟩ <;> rfl

end Emission

namespace Module

variable {module : Module}

/-- A function is refused for nothing exactly if all of it refers to what there is. -/
theorem functionPermitted_iff {position : Nat} :
    module.FunctionPermitted position ↔
      ∀ entry, (module.functions.zip module.bodies)[position]? = some entry →
        functionViolation? module (module.importedFunctionCount + position) entry = none := by
  constructor
  · rintro permitted ⟨typeIndex, body⟩ found
    obtain ⟨declares, has⟩ := List.getElem?_zip_eq_some.mp found
    obtain ⟨signature, typed, allowed⟩ := permitted typeIndex body declares has
    rw [functionViolation?, typed]
    exact Body.violation?_eq_none.mpr allowed
  · intro allowed typeIndex body declares has
    have none := allowed (typeIndex, body) (List.getElem?_zip_eq_some.mpr ⟨declares, has⟩)
    unfold functionViolation? at none
    split at none
    · cases none
    · next signature typed => exact ⟨signature, typed, Body.violation?_eq_none.mp none⟩

/-- An item of a numbered list is one of the list, with its number. -/
theorem getElem?_zipIdx_eq_some {α : Type} {items : List α} {first position : Nat}
    {numbered : α × Nat} :
    (items.zipIdx first)[position]? = some numbered ↔
      ∃ item, items[position]? = some item ∧ numbered = (item, first + position) := by
  rw [List.getElem?_zipIdx, Option.map_eq_some_iff]
  exact exists_congr fun item => and_congr_right fun _ => eq_comm

/-- Functions are refused for nothing exactly if each refers to what there is. -/
theorem violationFrom_eq_none :
    violationFrom module module.importedFunctionCount (module.functions.zip module.bodies) =
        none ↔
      ∀ position, module.FunctionPermitted position := by
  rw [violationFrom_eq_findSome?, List.findSome?_eq_none_iff]
  constructor
  · intro allowed position
    refine functionPermitted_iff.mpr fun entry found => ?_
    exact allowed _ (List.mem_of_getElem? (getElem?_zipIdx_eq_some.mpr ⟨entry, found, rfl⟩))
  · intro permitted numbered member
    obtain ⟨position, foundNumbered⟩ := List.mem_iff_getElem?.mp member
    obtain ⟨entry, found, rfl⟩ := getElem?_zipIdx_eq_some.mp foundNumbered
    exact functionPermitted_iff.mp (permitted position) entry found

/-- Functions are refused for the first one that does not refer to what there is. -/
theorem violationFrom_eq_some {error : Error} :
    violationFrom module module.importedFunctionCount (module.functions.zip module.bodies) =
        some error ↔
      ∃ (position : Nat) (entry : UInt32 × Body),
        (∀ other < position, module.FunctionPermitted other) ∧
        (module.functions.zip module.bodies)[position]? = some entry ∧
        functionViolation? module (module.importedFunctionCount + position) entry =
          some error := by
  rw [violationFrom_eq_findSome?, findSome?_eq_some_iff_getElem?]
  constructor
  · rintro ⟨position, numbered, foundNumbered, refused, earlier⟩
    obtain ⟨entry, found, rfl⟩ := getElem?_zipIdx_eq_some.mp foundNumbered
    refine ⟨position, entry, fun other less => functionPermitted_iff.mpr ?_, found, refused⟩
    intro before foundBefore
    exact earlier other _ less (getElem?_zipIdx_eq_some.mpr ⟨before, foundBefore, rfl⟩)
  · rintro ⟨position, entry, permitted, found, refused⟩
    refine ⟨position, _, getElem?_zipIdx_eq_some.mpr ⟨entry, found, rfl⟩, refused, ?_⟩
    intro other numbered less foundNumbered
    obtain ⟨before, foundBefore, rfl⟩ := getElem?_zipIdx_eq_some.mp foundNumbered
    exact functionPermitted_iff.mp (permitted other less) before foundBefore

/-- A declared function has a body if there are as many of both. -/
theorem exists_body (counts : module.functions.length = module.bodies.length) {position : Nat}
    {typeIndex : UInt32} (declares : module.functions[position]? = some typeIndex) :
    ∃ body, module.bodies[position]? = some body := by
  have inside := (List.getElem?_eq_some_iff.mp declares).1
  exact ⟨_, List.getElem?_eq_getElem (counts ▸ inside)⟩

/-- Every reference holds exactly if there are as many bodies as declared functions and each of
those refers to what there is. -/
theorem compilable_iff :
    module.Compilable ↔ module.functions.length = module.bodies.length ∧
      ∀ position, module.FunctionPermitted position := by
  constructor
  · refine fun compilable => ⟨compilable.counts, fun position typeIndex body declares has => ?_⟩
    have inside := compilable.types typeIndex (List.mem_of_getElem? declares)
    have typed := List.getElem?_eq_getElem inside
    refine ⟨module.types[typeIndex.toNat], typed, fun place less instruction here => ?_⟩
    exact compilable.instructions position typeIndex _ body place instruction declares has typed
      here
  · rintro ⟨counts, permitted⟩
    refine ⟨counts, fun typeIndex member => ?_, ?_⟩
    · obtain ⟨position, declares⟩ := List.mem_iff_getElem?.mp member
      obtain ⟨body, has⟩ := exists_body counts declares
      obtain ⟨signature, typed, -⟩ := permitted position typeIndex body declares has
      exact (List.getElem?_eq_some_iff.mp typed).1
    · intro position typeIndex signature body place instruction declares has typed here
      obtain ⟨other, otherTyped, allowed⟩ := permitted position typeIndex body declares has
      rw [typed] at otherTyped
      cases otherTyped
      exact allowed place (Array.getElem?_eq_some_iff.mp here).1 instruction here

/-- **A module is refused for nothing exactly if every reference holds.** -/
theorem moduleViolation?_eq_none : moduleViolation? module = none ↔ module.Compilable := by
  unfold moduleViolation?
  rw [compilable_iff, ← violationFrom_eq_none]
  by_cases counts : module.functions.length = module.bodies.length
  · rw [if_pos counts]
    exact (and_iff_right counts).symm
  · rw [if_neg counts]
    exact ⟨nofun, fun compilable => absurd compilable.1 counts⟩

/-- **A module is refused for the first reference that does not hold.** -/
theorem moduleViolation?_eq_some {error : Error} :
    moduleViolation? module = some error ↔ module.FirstViolation error := by
  -- The numbers are compared first; then, of the first function that is refused, the signature
  -- index is looked up before its body is.
  unfold moduleViolation?
  constructor
  · intro refused
    split at refused
    · next counts =>
        obtain ⟨position, ⟨typeIndex, body⟩, permitted, found, refused⟩ :=
          violationFrom_eq_some.mp refused
        obtain ⟨declares, has⟩ := List.getElem?_zip_eq_some.mp found
        unfold functionViolation? at refused
        split at refused
        · next absent =>
            cases refused
            exact .type counts permitted declares (List.getElem?_eq_none_iff.mp absent)
        · next signature typed =>
            obtain ⟨place, instruction, before, here, refused⟩ :=
              Body.violation?_eq_some.mp refused
            exact .instruction counts permitted declares has typed before here refused
    · next differ =>
        cases refused
        exact .counts differ
  · intro violation
    cases violation with
    | counts differ => exact if_neg differ
    | @type position typeIndex counts earlier declares absent =>
        obtain ⟨body, has⟩ := exists_body counts declares
        rw [if_pos counts, violationFrom_eq_some]
        refine ⟨position, (typeIndex, body), earlier,
          List.getElem?_zip_eq_some.mpr ⟨declares, has⟩, ?_⟩
        simp only [functionViolation?]
        rw [List.getElem?_eq_none absent]
    | @instruction position place typeIndex signature body instruction error counts earlier declares
        has typed before here refused =>
        rw [if_pos counts, violationFrom_eq_some]
        refine ⟨position, (typeIndex, body), earlier,
          List.getElem?_zip_eq_some.mpr ⟨declares, has⟩, ?_⟩
        simp only [functionViolation?]
        rw [typed]
        exact Body.violation?_eq_some.mpr ⟨_, _, before, here, refused⟩

end Module

/-! ## What compilation decides -/

/-- No instruction is refused for what linking and assembling would have to answer for. -/
theorem Module.FirstViolation.external {module : Module} {error : Error}
    (violation : module.FirstViolation error) :
    (∀ function position offset, error ≠ .unlinkedInstruction function position offset) ∧
      ∀ function label, error ≠ .unmarkedLabel function label := by
  cases violation with
  | counts | type => exact ⟨fun _ _ _ absurd => (nomatch absurd), fun _ _ absurd => nomatch absurd⟩
  | instruction counts earlier declares has typed before here refused =>
      cases refused <;>
        exact ⟨fun _ _ _ absurd => (nomatch absurd), fun _ _ absurd => nomatch absurd⟩

/-- **What compilation decides.** The bytes of a module compile exactly if every reference of the
module holds; otherwise the error is that of the first one that does not. Emission finds no
instruction unlinked and no label without a place. -/
theorem compile_decides {bytes : List UInt8} {module : Module}
    (decoded : Binary.decodeModule bytes = .ok module) (name : String) :
    ((∃ assembly, compile name bytes = .ok assembly) ↔ module.Compilable) ∧
    (∀ error, compile name bytes = .error error ↔
      ∃ violation, error = .emission violation ∧ module.FirstViolation violation) ∧
    (∀ function position offset,
      compile name bytes ≠ .error (.emission (.unlinkedInstruction function position offset))) ∧
    ∀ function label, compile name bytes ≠ .error (.emission (.unmarkedLabel function label)) := by
  have wellRead := Binary.wellRead_of_decodeModule decoded
  rw [← Module.moduleViolation?_eq_none]
  cases refused : moduleViolation? module with
  | none =>
      obtain ⟨functions, -, -, compiled⟩ := compile_of_allowed wellRead refused name
      have whole : compile name bytes = .ok (withFunctions (declared module name) functions) := by
        rw [compile, decoded]
        simp only
        rw [compiled]
      rw [whole]
      refine ⟨⟨fun _ => rfl, fun _ => ⟨_, rfl⟩⟩, fun error => ⟨fun absurd => (nomatch absurd), ?_⟩,
        fun _ _ _ absurd => (nomatch absurd), fun _ _ absurd => nomatch absurd⟩
      rintro ⟨violation, -, first⟩
      rw [Module.moduleViolation?_eq_some.mpr first] at refused
      cases refused
  | some violation =>
      have first := Module.moduleViolation?_eq_some.mp refused
      have whole : compile name bytes = .error (.emission violation) := by
        rw [compile, decoded]
        simp only
        rw [compile_of_refused wellRead refused name]
      rw [whole]
      refine ⟨⟨?_, fun absurd => nomatch absurd⟩, fun error => ⟨fun equation => ?_, ?_⟩, ?_, ?_⟩
      · rintro ⟨assembly, absurd⟩
        cases absurd
      · cases equation
        exact ⟨violation, rfl, first⟩
      · rintro ⟨other, rfl, otherFirst⟩
        rw [Module.moduleViolation?_eq_some.mpr otherFirst] at refused
        cases refused
        rfl
      · intro function position offset absurd
        cases absurd
        exact first.external.1 function position offset rfl
      · intro function label absurd
        cases absurd
        exact first.external.2 function label rfl

/-- The bytes of a module whose only function reads a local that there is not, after a trap. -/
def unreachableLocalBytes : List UInt8 :=
  [0x00, 0x61, 0x73, 0x6d, 0x01, 0x00, 0x00, 0x00, 0x01, 0x04, 0x01, 0x60, 0x00, 0x00,
    0x03, 0x02, 0x01, 0x00, 0x0a, 0x07, 0x01, 0x05, 0x00, 0x00, 0x20, 0x05, 0x0b]

/-- The body of that function. -/
def unreachableLocalBody : Body :=
  { instructions := #[.plain .unreachable, .plain (.getLocal 5), .finish none]
    offsets := #[23, 24, 26] }

/-- The module with that function. -/
def unreachableLocal : Module :=
  { types := [{}], functions := [0], bodies := [unreachableLocalBody] }

/-- A local that there is not is refused also where no run gets to. -/
theorem compile_decides_unreachable :
    Binary.decodeModule unreachableLocalBytes = .ok unreachableLocal ∧
      compile "local" unreachableLocalBytes =
        .error (.emission (.localIndexOutOfRange 0 5 0)) ∧
      ¬unreachableLocal.Compilable := by
  have decoded : Binary.decodeModule unreachableLocalBytes = .ok unreachableLocal := rfl
  have earlier : ∀ other < 0, unreachableLocal.FunctionPermitted other :=
    fun other absurd => (Nat.not_lt_zero other absurd).elim
  have before : unreachableLocalBody.PermittedBelow
      (unreachableLocal.siteOf 0 {} unreachableLocalBody) 1 := by
    intro position less instruction found
    obtain rfl : position = 0 := Nat.lt_one_iff.mp less
    cases found
    trivial
  have first : unreachableLocal.FirstViolation (.localIndexOutOfRange 0 5 0) :=
    .instruction rfl earlier rfl rfl rfl before rfl (.getLocal (Nat.zero_le _))
  obtain ⟨compiles, errors, -⟩ := compile_decides decoded "local"
  have refused := (errors _).mpr ⟨_, rfl, first⟩
  refine ⟨decoded, refused, fun compilable => ?_⟩
  obtain ⟨assembly, equation⟩ := compiles.mpr compilable
  rw [refused] at equation
  cases equation

end WasmCompiler
