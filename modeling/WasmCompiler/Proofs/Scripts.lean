import WasmCompiler.Compilation
import WasmCompiler.Proofs.Assembling
import WasmCompiler.Proofs.Decoding
import WasmCompiler.Proofs.Emission

/-! # Scripts of functions and modules

The script of a linked function is its draft between the directives that open and close it, or the
first part of that up to the first instruction that is refused. Such scripts can be assembled, so a
module is refused for one of its instructions and for nothing else.

* **`scriptOfFunction_link`** — the script of a linked function that is not refused;
* **`scriptOfFunction_refused`** — the script of one that is;
* **`compile_of_allowed`** — what a module compiles to if nothing in it is refused;
* **`compile_of_refused`** — the error if something is. -/

namespace WasmCompiler

open Emission

/-! ## Refused instructions in order -/

/-- Why emission refuses an instruction of a linked body, if it does. -/
def Instruction.violation? (site : Site) : Instruction → Option Error
  | .plain instruction => instruction.violation? site
  | _ => none

/-- An opener is never refused. -/
@[simp] theorem BlockKind.violation?_opener (site : Site) (kind : BlockKind) (type : BlockType)
    (label finish : Nat) : (kind.opener type label finish).violation? site = none := by
  cases kind <;> rfl

/-- Nor is a branch. -/
@[simp] theorem Jump.violation?_link (site : Site) {depth : Nat} (labels : LabelStack depth)
    (leap : Jump depth) : (leap.link labels).violation? site = none := by
  cases leap <;> rfl

/-- The first instruction of structured code that is refused is the first one of its linked form. -/
theorem Code.findSome?_instructions (site : Site) {depth : Nat} (code : Code depth)
    (labels : LabelStack depth) (position label : Nat) :
    (code.instructions labels position label).findSome? (Instruction.violation? site) =
      code.violation? site := by
  induction code generalizing position label with
  | empty => rfl
  | plain offset instruction next nextInduction =>
      rw [Code.instructions, List.findSome?_cons, nextInduction, Code.violation?]
      cases equation : instruction.violation? site <;>
        simp [Instruction.violation?, equation]
  | jump offset leap next nextInduction =>
      rw [Code.instructions, List.findSome?_cons, nextInduction, Jump.violation?_link]
      rfl
  | block offset kind type body finish next bodyInduction nextInduction =>
      rw [Code.instructions, List.findSome?_cons, BlockKind.violation?_opener,
        List.findSome?_append, bodyInduction, List.findSome?_cons, nextInduction]
      rfl
  | ifThen offset type arm finish next armInduction nextInduction =>
      rw [Code.instructions, List.findSome?_cons, List.findSome?_append, armInduction,
        List.findSome?_cons, nextInduction]
      rfl
  | ifElse offset type arm middle otherwise finish next armInduction otherwiseInduction
      nextInduction =>
      simp only [Code.instructions]
      rw [List.findSome?_cons, List.findSome?_append, armInduction, List.findSome?_cons,
        List.findSome?_append, otherwiseInduction, List.findSome?_cons, nextInduction]
      rfl

/-- Why emission refuses a body, if it does: for its first instruction that is refused. -/
def Body.violation? (site : Site) (body : Body) : Option Error :=
  body.instructions.toList.findSome? (Instruction.violation? site)

/-- A linked body is refused for the code that it is the linked form of. -/
theorem Body.violation?_of_link (site : Site) {body : Body} {code : Code 0} {finish : Nat}
    (linked : body = code.link body.locals finish) :
    body.violation? site = code.violation? site := by
  rw [Body.violation?, linked, Body.toList_link, List.findSome?_append,
    Code.findSome?_instructions]
  exact Option.or_none

end WasmCompiler

namespace WasmCompiler.Emission

open Stateful
open Bytecode (Assembler)
open Bytecode.Assembler (opening)

/-! ## Functions -/

namespace Site

variable (site : Site)

/-- The draft of a whole function: its code and the return at the end. -/
def draft (code : Code 0) : Draft :=
  (code.draft site .outermost ⟨0, 0, true⟩).andThen fun stage => ⟨operations [.ret], stage⟩

/-- The draft of a function is disciplined. -/
theorem disciplined_draft (code : Code 0) : Disciplined 0 (site.draft code) := by
  have outside : (Scope.outermost).Below (⟨0, 0, true⟩ : Stage).defined := fun level => level.elim0
  have inside := Code.disciplined_draft site code outside
  refine inside.andThen (Disciplined.of_operations (fun op member => ?_) rfl)
  rw [List.mem_singleton.mp member]
  exact fun _ absurd => nomatch absurd

/-- The directives of a function. -/
def directives (code : Code 0) : List Directive :=
  opening site.index site.signature site.body.locals ++ (site.draft code).directives ++
    [.endFunction]

/-- The compiled form of a function. -/
def function (code : Code 0) : Bytecode.Function :=
  .ofDirectives site.index site.signature site.body.locals (site.draft code).directives

end Site

namespace Emitter

/-- The state in which the code of a function is emitted. -/
def opened (site : Site) : State :=
  ({} : State).advance ⟨opening site.index site.signature site.body.locals, ({} : State).stage⟩ []

/-- Locals are declared one after the other. -/
theorem locals_apply (locals : List ValueType) (state : State) :
    (locals.forM fun type => emit (.declareLocal type)) state =
      .ok ⟨⟩ (state.advance ⟨locals.map .declareLocal, state.stage⟩ []) := by
  induction locals generalizing state with
  | nil => simp [pure_apply]
  | cons type rest restInduction =>
      simp only [List.forM_eq_forM, List.forM_cons] at restInduction ⊢
      rw [bind_of_ok _ (emit_apply _ state), restInduction, State.advance_advance]
      rfl

/-- Emission of a function starts with the directives that open it. -/
theorem function_apply (site : Site) :
    function site {} =
      (instructions site 0 site.body.instructions.toList >>= fun _ => emit .endFunction)
        (opened site) := by
  rw [function, bind_of_ok _ (emit_apply _ _), bind_of_ok _ (locals_apply _ _),
    State.advance_advance]
  rfl

/-- Emission of a linked function follows its draft. -/
theorem follows_link {site : Site} {code : Code 0} {finish : Nat}
    (linked : site.body = code.link site.body.locals finish) :
    Follows (instructions site 0 site.body.instructions.toList) (opened site)
      (code.violation? site) (site.draft code) 0 code.labelCount := by
  have list : site.body.instructions.toList = code.instructions .empty 0 0 ++ [.finish none] := by
    rw [linked, Body.toList_link]
  have placed : code.Placed site.body.instructions.toList .empty 0 0 := ⟨_, list⟩
  have outside : Around site (opened site).labels 0 0 .empty .outermost [] := .outermost
  have inside := instructions_code placed outside
  rw [list, instructions_append, ← @Option.or_none _ (code.violation? site)]
  rw [Nat.zero_add] at inside
  refine inside.andThen ⟨Nat.zero_le _, Nat.le_refl _⟩ fun names keys => Follows.of_ok ?_
  exact op_apply .ret _

end Emitter

variable {site : Site} {code : Code 0} {finish : Nat}

/-- **The script of a linked function that is not refused** is its draft between the directives that
open and close it. -/
theorem scriptOfFunction_link (linked : site.body = code.link site.body.locals finish)
    (allowed : code.violation? site = none) :
    scriptOfFunction site = ⟨site.directives code, none⟩ := by
  have follows := Emitter.follows_link linked
  rw [allowed] at follows
  obtain ⟨names, -, equation⟩ := follows
  rw [scriptOfFunction, Emitter.function_apply, bind_of_ok _ equation, Emitter.emit_apply]
  simp [State.advance, Emitter.opened, Site.directives]

/-- **The script of a linked function that is refused** ends after a first part of its draft. -/
theorem scriptOfFunction_refused {error : Error}
    (linked : site.body = code.link site.body.locals finish)
    (refused : code.violation? site = some error) :
    ∃ front, front <+: (site.draft code).directives ∧
      scriptOfFunction site =
        ⟨opening site.index site.signature site.body.locals ++ front, some error⟩ := by
  have follows := Emitter.follows_link linked
  rw [refused] at follows
  obtain ⟨later, front, equation, directives, isFront⟩ := follows
  refine ⟨front, isFront, ?_⟩
  rw [scriptOfFunction, Emitter.function_apply, bind_of_error _ equation]
  simp [directives, State.advance, Emitter.opened]

/-! ## Functions in order -/

/-- Why emission refuses functions, if it does: for the first signature index or instruction that is
refused. -/
def violationFrom (module : Module) : (index : Nat) → List (UInt32 × Body) → Option Error
  | _, [] => none
  | index, (typeIndex, body) :: rest =>
      match module.types[typeIndex.toNat]? with
      | none => some (.typeIndexOutOfRange typeIndex)
      | some signature =>
          (body.violation? ⟨module, index, signature, body⟩).or
            (violationFrom module (index + 1) rest)

/-- **Whether a function is the compiled form of a body** with a signature index. -/
def CompiledFrom (module : Module) (index : Nat) (entry : UInt32 × Body)
    (function : Bytecode.Function) : Prop :=
  ∃ (signature : Signature) (code : Code 0) (finish : Nat),
    module.types[entry.1.toNat]? = some signature ∧
    entry.2 = code.link entry.2.locals finish ∧
    code.violation? ⟨module, index, signature, entry.2⟩ = none ∧
    function = Site.function ⟨module, index, signature, entry.2⟩ code

/-- Whether functions are the compiled forms of bodies, the first of which has the given index. -/
def CompiledAll (module : Module) : (index : Nat) → List (UInt32 × Body) →
    List Bytecode.Function → Prop
  | _, [], functions => functions = []
  | index, entry :: entries, functions =>
      ∃ first rest, functions = first :: rest ∧ CompiledFrom module index entry first ∧
        CompiledAll module (index + 1) entries rest

/-- The compiled form of each body stands at its place. -/
theorem CompiledAll.getElem? {module : Module} {index position : Nat}
    {entries : List (UInt32 × Body)} {functions : List Bytecode.Function}
    (compiled : CompiledAll module index entries functions) {entry : UInt32 × Body}
    (found : entries[position]? = some entry) :
    ∃ function, functions[position]? = some function ∧
      CompiledFrom module (index + position) entry function := by
  induction entries generalizing index position functions with
  | nil => cases found
  | cons first rest restInduction =>
      obtain ⟨function, functions, rfl, here, later⟩ := compiled
      cases position with
      | zero =>
          cases found
          exact ⟨function, rfl, here⟩
      | succ position =>
          obtain ⟨other, otherFound, compiledOther⟩ := restInduction later found
          refine ⟨other, otherFound, ?_⟩
          rwa [Nat.add_assoc, Nat.add_comm 1] at compiledOther

/-- There are as many compiled forms as bodies. -/
theorem CompiledAll.length_eq {module : Module} {index : Nat} {entries : List (UInt32 × Body)}
    {functions : List Bytecode.Function} (compiled : CompiledAll module index entries functions) :
    functions.length = entries.length := by
  induction entries generalizing index functions with
  | nil => exact congrArg List.length compiled
  | cons first rest restInduction =>
      obtain ⟨function, functions, rfl, -, later⟩ := compiled
      rw [List.length_cons, List.length_cons, restInduction later]

/-- An assembly with more functions. -/
def withFunctions (assembly : Bytecode.Assembly) (functions : List Bytecode.Function) :
    Bytecode.Assembly :=
  { assembly with functions := assembly.functions ++ functions.toArray }

/-- No functions more is the same assembly. -/
@[simp] theorem withFunctions_nil (assembly : Bytecode.Assembly) :
    withFunctions assembly [] = assembly := by
  simp [withFunctions]

/-- Functions added one after the other are added together. -/
@[simp] theorem withFunctions_withFunctions (assembly : Bytecode.Assembly)
    (first second : List Bytecode.Function) :
    withFunctions (withFunctions assembly first) second =
      withFunctions assembly (first ++ second) := by
  simp [withFunctions]

/-- The directives of a function add its compiled form. -/
theorem followAll_directives (site : Site) (code : Code 0) (assembly : Bytecode.Assembly) :
    Assembler.followAll ⟨assembly, none⟩ (site.directives code) =
      .ok ⟨withFunctions assembly [site.function code], none⟩ := by
  refine (Assembler.followAll_function ⟨assembly, none⟩ site.index site.signature
    site.body.locals (site.disciplined_draft code)).trans ?_
  simp [withFunctions, Site.function]

/-- The first directives of a function can be followed. -/
theorem followAll_front (site : Site) (code : Code 0) {front : List Directive}
    (isFront : front <+: (site.draft code).directives) (assembly : Bytecode.Assembly) :
    ∃ later, Assembler.followAll ⟨assembly, none⟩
      (opening site.index site.signature site.body.locals ++ front) = .ok later := by
  obtain ⟨further, whole⟩ := isFront
  have orderly := (site.disciplined_draft code).orderly
  rw [← whole, orderly_append] at orderly
  exact ⟨_, Assembler.followAll_opening ⟨assembly, none⟩ _ _ _ orderly.1⟩

/-- A structured body is the linked form of code with its own locals. -/
theorem exists_link {body : Body} (structured : Binary.Structured body) :
    ∃ code finish, body = Code.link body.locals code finish := by
  obtain ⟨locals, code, finish, rfl, -⟩ := structured
  have same : (code.link locals finish).locals = locals := by rw [Code.link_eq]
  exact ⟨code, finish, by rw [same]⟩

/-- **The script of functions that are not refused** adds their compiled forms. -/
theorem scriptOfFunctions_allowed {module : Module} {index : Nat} {entries : List (UInt32 × Body)}
    (structured : ∀ entry ∈ entries, Binary.Structured entry.2)
    (allowed : violationFrom module index entries = none) :
    ∃ directives functions, scriptOfFunctions module index entries = ⟨directives, none⟩ ∧
      CompiledAll module index entries functions ∧
      ∀ assembly, Assembler.followAll ⟨assembly, none⟩ directives =
        .ok ⟨withFunctions assembly functions, none⟩ := by
  induction entries generalizing index with
  | nil => exact ⟨[], [], rfl, rfl, fun assembly => by simp [Assembler.followAll]⟩
  | cons entry rest restInduction =>
      obtain ⟨typeIndex, body⟩ := entry
      rw [violationFrom] at allowed
      rw [scriptOfFunctions]
      cases declared : module.types[typeIndex.toNat]? with
      | none =>
          rw [declared] at allowed
          cases allowed
      | some signature =>
          simp only [declared] at allowed ⊢
          obtain ⟨bodyAllowed, restAllowed⟩ := Option.or_eq_none_iff.mp allowed
          obtain ⟨code, finish, linked⟩ : ∃ code finish, body = Code.link body.locals code finish :=
            exists_link (structured _ List.mem_cons_self)
          obtain ⟨directives, functions, script, compiled, follows⟩ :=
            restInduction (fun other member => structured other (List.mem_cons_of_mem _ member))
              restAllowed
          rw [Body.violation?_of_link _ linked] at bodyAllowed
          have first := @scriptOfFunction_link ⟨module, index, signature, body⟩ code finish linked
            bodyAllowed
          rw [first, script, Script.andThen]
          refine ⟨_, _, rfl, ⟨_, functions, rfl, ⟨signature, code, finish, declared, linked,
            bodyAllowed, rfl⟩, compiled⟩, fun assembly => ?_⟩
          rw [Assembler.followAll_append (followAll_directives _ code assembly), follows,
            withFunctions_withFunctions]
          rfl

/-- **The script of functions that are refused** can be followed up to the error. -/
theorem scriptOfFunctions_refused {module : Module} {index : Nat} {entries : List (UInt32 × Body)}
    {error : Error} (structured : ∀ entry ∈ entries, Binary.Structured entry.2)
    (refused : violationFrom module index entries = some error) :
    ∃ directives, scriptOfFunctions module index entries = ⟨directives, some error⟩ ∧
      ∀ assembly, ∃ later, Assembler.followAll ⟨assembly, none⟩ directives = .ok later := by
  induction entries generalizing index with
  | nil => cases refused
  | cons entry rest restInduction =>
      obtain ⟨typeIndex, body⟩ := entry
      rw [violationFrom] at refused
      rw [scriptOfFunctions]
      cases declared : module.types[typeIndex.toNat]? with
      | none =>
          rw [declared] at refused
          cases refused
          exact ⟨[], rfl, fun assembly => ⟨_, rfl⟩⟩
      | some signature =>
          simp only [declared] at refused ⊢
          obtain ⟨code, finish, linked⟩ : ∃ code finish, body = Code.link body.locals code finish :=
            exists_link (structured _ List.mem_cons_self)
          rw [Body.violation?_of_link _ linked] at refused
          -- Either this function is refused, after a front of its directives, or a later one.
          cases bodyRefused : code.violation? ⟨module, index, signature, body⟩ with
          | some other =>
              rw [bodyRefused] at refused
              cases refused
              obtain ⟨front, isFront, script⟩ := @scriptOfFunction_refused
                ⟨module, index, signature, body⟩ code finish _ linked bodyRefused
              rw [script, Script.andThen]
              exact ⟨_, rfl, followAll_front ⟨module, index, signature, body⟩ code isFront⟩
          | none =>
              rw [bodyRefused, Option.none_or] at refused
              obtain ⟨directives, script, follows⟩ := restInduction
                (fun other member => structured other (List.mem_cons_of_mem _ member)) refused
              have first := @scriptOfFunction_link ⟨module, index, signature, body⟩ code finish
                linked bodyRefused
              rw [first, script, Script.andThen]
              refine ⟨_, rfl, fun assembly => ?_⟩
              rw [Assembler.followAll_append (followAll_directives _ code assembly)]
              exact follows _

/-! ## Modules -/

/-- Why emission refuses a module, if it does. -/
def moduleViolation? (module : Module) : Option Error :=
  if module.functions.length = module.bodies.length then
    violationFrom module module.importedFunctionCount (module.functions.zip module.bodies)
  else some (.functionCountMismatch module.functions.length module.bodies.length)

/-- The assembly of a module without its functions. -/
def declared (module : Module) (name : String) : Bytecode.Assembly :=
  { toDeclarations := module.toDeclarations, name := name }

/-- The bodies that are compiled are those of the module. -/
theorem structured_of_mem_zip {module : Module} (wellRead : Binary.WellRead module)
    {entry : UInt32 × Body} (member : entry ∈ module.functions.zip module.bodies) :
    Binary.Structured entry.2 :=
  wellRead.bodies entry.2 (List.of_mem_zip member).2

/-- **A module in which nothing is refused** compiles to its declarations and the compiled forms of
its bodies. -/
theorem compile_of_allowed {module : Module} (wellRead : Binary.WellRead module)
    (allowed : moduleViolation? module = none) (name : String) :
    ∃ functions, module.functions.length = module.bodies.length ∧
      CompiledAll module module.importedFunctionCount (module.functions.zip module.bodies)
        functions ∧
      module.compile name = .ok (withFunctions (declared module name) functions) := by
  unfold moduleViolation? at allowed
  split at allowed
  · next counts =>
      obtain ⟨directives, functions, script_eq, compiled, follows⟩ :=
        scriptOfFunctions_allowed (fun _ member => structured_of_mem_zip wellRead member) allowed
      refine ⟨functions, counts, compiled, ?_⟩
      have start : Assembler.followAll (Assembler.ofName name) [.declareModule module] =
          .ok ⟨declared module name, none⟩ := rfl
      rw [Module.compile, Bytecode.assemble, script, if_pos counts, script_eq]
      simp only [Script.andThen]
      rw [Assembler.followAll_append start, follows]
      rfl
  · cases allowed

/-- **A module in which something is refused** does not compile, and the error is that of what is
refused first. -/
theorem compile_of_refused {module : Module} (wellRead : Binary.WellRead module) {error : Error}
    (refused : moduleViolation? module = some error) (name : String) :
    module.compile name = .error error := by
  unfold moduleViolation? at refused
  rw [Module.compile, Bytecode.assemble, script]
  split at refused
  · next counts =>
      obtain ⟨directives, script_eq, follows⟩ :=
        scriptOfFunctions_refused (fun _ member => structured_of_mem_zip wellRead member) refused
      have start : Assembler.followAll (Assembler.ofName name) [.declareModule module] =
          .ok ⟨declared module name, none⟩ := rfl
      obtain ⟨later, equation⟩ := follows (declared module name)
      rw [if_pos counts, script_eq]
      simp only [Script.andThen]
      rw [Assembler.followAll_append start, equation]
      rfl
  · next counts =>
      cases refused
      rw [if_neg counts]
      rfl

end WasmCompiler.Emission
