import WasmCompiler.Proofs.Diagnostics
import WasmCompiler.Proofs.Displacement
import WasmCompiler.Proofs.Scripts
import WasmCompiler.Proofs.Truncation

/-! # Custom sections

A section of number 0 may be put in wherever a section of a module ends. Nothing is read from it, so
all that changes is where the sections after it lie, and that shows in the offsets of bodies only.
Emission looks at no offset of a body that was read, so the module compiles to the same.

* **`Module.mapOffsets`** — the same module with other offsets;
* **`nextSection_shifted`** — a section further on is read in the same way;
* **`Runs.split`**, **`runs_custom`** — a run can go on with a custom section anywhere;
* **`Runs.moved`** — the sections after it make what they made, with the bodies where they are then;
* **`Emission.compile_mapOffsets`** — offsets make no difference to what is compiled;
* **`custom_sections_transparent`** — a module with a custom section more. -/

namespace WasmCompiler

namespace Module

/-- A module with changed offsets. -/
def mapOffsets (change : Nat → Nat) (module : Module) : Module :=
  { module with bodies := module.bodies.map (Body.mapOffsets change) }

/-- Other offsets leave the declarations. -/
@[simp] theorem toDeclarations_mapOffsets (change : Nat → Nat) (module : Module) :
    (module.mapOffsets change).toDeclarations = module.toDeclarations := rfl

/-- They leave the signatures of the functions. -/
@[simp] theorem functions_mapOffsets (change : Nat → Nat) (module : Module) :
    (module.mapOffsets change).functions = module.functions := rfl

/-- They are the offsets of the bodies. -/
@[simp] theorem bodies_mapOffsets (change : Nat → Nat) (module : Module) :
    (module.mapOffsets change).bodies = module.bodies.map (Body.mapOffsets change) := rfl

/-- Changes that agree on the offsets of a module make the same of it. -/
theorem mapOffsets_congr {module : Module} {change other : Nat → Nat}
    (agree : ∀ body ∈ module.bodies, ∀ offset ∈ body.offsets, change offset = other offset) :
    module.mapOffsets change = module.mapOffsets other := by
  have bodies : module.bodies.map (Body.mapOffsets change) =
      module.bodies.map (Body.mapOffsets other) := by
    refine List.map_congr_left fun body member => ?_
    rw [Body.mapOffsets, Body.mapOffsets, Array.map_congr_left (agree body member)]
  rw [mapOffsets, mapOffsets, bodies]

/-- Offsets that are not changed leave the module. -/
@[simp] theorem mapOffsets_id (module : Module) : module.mapOffsets id = module := by
  have body (body : Body) : body.mapOffsets id = body := by
    rw [Body.mapOffsets, Array.map_id]
  rw [mapOffsets, List.map_congr_left fun _ _ => body _, List.map_id']

/-- A module without bodies has no offsets. -/
theorem mapOffsets_of_bodies {module : Module} (none : module.bodies = []) (change : Nat → Nat) :
    module.mapOffsets change = module := by
  rw [mapOffsets, none, List.map_nil, ← none]

end Module

namespace Binary

open Stateful Varint Decoder

variable {distance : Nat} {change : Nat → Nat}

/-! ## Sections further on -/

/-- What a section holds is read further on with other offsets, those of bodies. -/
theorem Decoder.shifts_payload {kind : SectionKind} (module : Module)
    (bodies : kind = .code → change = (· + distance)) :
    Shifts distance (Module.mapOffsets change) (payload kind module)
      (payload kind (module.mapOffsets change)) := by
  cases kind with
  | types => exact movable_signature.vector.bind fun _ => shifts_pure _ _
  | imports =>
      exact movable_unsigned32.bind fun _ => (movable_importsOnto _ _).bind fun _ => shifts_pure _ _
  | functions => exact movable_unsigned32.vector.bind fun _ => shifts_pure _ _
  | table =>
      exact (movable_singleton _ _ movable_tableType).bind fun _ => shifts_pure _ _
  | memory => exact (movable_singleton _ _ movable_limits).bind fun _ => shifts_pure _ _
  | globals => exact movable_globalEntry.vector.bind fun _ => shifts_pure _ _
  | exports => exact movable_exportEntry.vector.bind fun _ => shifts_pure _ _
  | start => exact movable_unsigned32.bind fun _ => shifts_pure _ _
  | elements => exact movable_elementSegment.vector.bind fun _ => shifts_pure _ _
  | code =>
      obtain rfl := bodies rfl
      exact shifts_codeEntry.vector.bind fun _ => shifts_pure _ _
  | data => exact movable_dataSegment.vector.bind fun _ => shifts_pure _ _

/-- **A section is read further on** with other offsets, those of bodies if it is the code section.
-/
theorem nextSection_shifted (change : Nat → Nat) (distance : Nat) (last : UInt8) (module : Module)
    (cursor : Cursor)
    (bodies : cursor.rest.head? = some SectionKind.code.id → change = (· + distance)) :
    nextSection last (module.mapOffsets change) (cursor.shifted distance) =
      shiftResult distance (fun result => (result.1, result.2.mapOffsets change))
        (nextSection last module cursor) := by
  refine bind_shifted (shifts_position cursor) fun offset stay equation => ?_
  cases equation
  refine bind_shifted (movable_unsigned7 cursor) fun id later equation => ?_
  -- The number is the byte that the section starts with.
  have isCode : id = SectionKind.code.id → change = (· + distance) := by
    obtain ⟨_, split, -, rfl, -⟩ := admits_unsigned7 cursor later id equation
    rintro rfl
    exact bodies (congrArg List.head? split)
  rw [id_eq]
  refine Shifts.bind movable_unsigned32 (fun length => ?_) later
  refine (shifts_window length.toNat).bind fun contents => ?_
  refine .ite (shifts_pure _ (last, module)) ?_
  cases found : SectionKind.ofId? id with
  | none => exact shifts_throw _ (.unknownSection cursor.position id)
  | some kind =>
      obtain rfl := SectionKind.id_of_ofId? found
      refine .refuse (.sectionOutOfOrder cursor.position kind.id) ?_
      have ends (module : Module) : Shifts distance (Module.mapOffsets change)
          (do expectEnd (.sectionTooLong · kind.id); return module)
          (do expectEnd (.sectionTooLong · kind.id); return module.mapOffsets change) :=
        (shifts_expectEnd fun _ => rfl).bind fun _ => shifts_pure _ module
      have payload := shifts_payload module fun same => isCode (congrArg SectionKind.id same)
      refine .bind (.within (.bind payload ends) contents) fun module => ?_
      exact shifts_pure _ (kind.id, module)

/-! ## Runs of sections -/

/-- A section makes the same of a module with other offsets. -/
theorem RawSection.Adds.mapOffsets {part : RawSection} {last after : UInt8}
    {module result : Module} (adds : part.Adds last module (after, result)) :
    part.Adds last (module.mapOffsets change) (after, result.mapOffsets change) := by
  cases adds with
  | custom passed => exact .custom passed
  | kind isKind ordered others =>
      refine .kind isKind ordered fun other different => ?_
      have same := others other different
      cases other with
      | code => exact congrArg (List.map _) same
      | _ => exact same

namespace Runs

variable {position : Nat} {last : UInt8} {module result : Module} {parts : List RawSection}

/-- **A run further on** makes the same with other offsets, those of bodies if it has them. -/
theorem shifted (runs : Runs position last module parts result)
    (bodies : SectionKind.code.id ∈ parts.map RawSection.id → change = (· + distance)) :
    Runs (position + distance) last (module.mapOffsets change) parts
      (result.mapOffsets change) := by
  induction runs with
  | done => exact .done
  | @step position last after module middle result part parts reads misses sized adds later
      laterInduction =>
      rw [List.map_cons, List.mem_cons] at bodies
      -- Bytes that start with no other number than this section are read alike at both places.
      have far (front : List UInt8)
          (starts : front.head? = some SectionKind.code.id → part.id = SectionKind.code.id) :=
        nextSection_shifted change distance last module ⟨position, front⟩ fun isCode =>
          bodies (.inl (starts isCode).symm)
      have onward := laterInduction fun member => bodies (.inr member)
      rw [Nat.add_right_comm] at onward
      refine .step (fun rest => ?_) (fun front back split more => ?_) sized adds.mapOffsets onward
      · refine (far (part.bytes ++ rest) Option.some.inj).trans ?_
        rw [reads rest]
        simp only [shiftResult, Cursor.shifted, Nat.add_right_comm]
      · obtain ⟨offset, stop, fails⟩ := misses front back split more
        have starts : front.head? = some SectionKind.code.id → part.id = SectionKind.code.id := by
          intro isCode
          have head := congrArg List.head? split
          rw [List.head?_append, isCode] at head
          exact Option.some.inj head
        have failsFar := far front starts
        rw [fails] at failsFar
        exact ⟨_, _, failsFar⟩

/-- **A run can be left** between its sections, and gone on with by others. -/
theorem split {before after : List RawSection}
    (runs : Runs position last module (before ++ after) result) :
    ∃ reached middle,
      Runs (position + (before.flatMap RawSection.bytes).length) reached middle after result ∧
      ∀ others final,
        Runs (position + (before.flatMap RawSection.bytes).length) reached middle others final →
          Runs position last module (before ++ others) final := by
  induction before generalizing position last module with
  | nil => exact ⟨last, module, runs, fun _ _ onward => onward⟩
  | cons part before beforeInduction =>
      cases runs with
      | step reads misses sized adds later =>
          obtain ⟨reached, middle, rest, goesOn⟩ := beforeInduction later
          rw [Nat.add_assoc, ← List.length_append, ← List.flatMap_cons] at rest goesOn
          exact ⟨reached, middle, rest, fun others final onward =>
            .step reads misses sized adds (goesOn others final onward)⟩

/-- A run has at most one section of a kind. -/
theorem absent_after {before after : List RawSection} {kind : SectionKind}
    (runs : Runs position last module (before ++ after) result)
    (present : kind.id ∈ before.map RawSection.id) : kind.id ∉ after.map RawSection.id := by
  induction before generalizing position last module with
  | nil => cases present
  | cons part before beforeInduction =>
      cases runs with
      | step reads misses sized adds later =>
          rw [List.map_cons, List.mem_cons] at present
          rcases present with here | further
          · intro member
            obtain ⟨other, among, same⟩ := List.mem_map.mp member
            -- Every section after this one has a greater number.
            have counts : part.id ≠ SectionKind.customId := here ▸ kind.id_ne_customId
            have beyond := later.ordered other (List.mem_append_right _ among)
              (same ▸ kind.id_ne_customId)
            rw [(adds.ordered counts).2, same, here] at beyond
            exact UInt8.lt_irrefl _ beyond
          · exact beforeInduction later further

end Runs

/-- **A custom section is passed over**, whatever it holds. -/
theorem runs_custom {custom : RawSection} (passed : custom.id = SectionKind.customId)
    (sized : custom.IsSized) {position : Nat} {last : UInt8} {module result : Module}
    {parts : List RawSection}
    (onward : Runs (position + custom.bytes.length) last module parts result) :
    Runs position last module (custom :: parts) result := by
  have reads : (nextSection last module).Reads position custom.bytes (last, module) := by
    obtain ⟨index, whole⟩ := spellsIndex_of_count sized.size
    refine .afterPosition ((reads_number sized.id position).bind ((reads_unsigned32 _ index).bind
      ((reads_window _ whole.symm).thenNothing ?_)))
    rw [if_pos passed]
    exact reads_pure _ _
  have whole := reads []
  obtain ⟨bytes, split, -, misses⟩ := exact_nextSection last module _ _ _ whole
  obtain rfl := List.append_cancel_right split
  exact .step reads misses sized (.custom passed) onward

/-- A module is a run of sections after the header. -/
theorem runs_of_decodeModule {bytes : List UInt8} {module : Module}
    (decoded : decodeModule bytes = .ok module) :
    ∃ parts, IsSectioned bytes parts ∧ Runs header.length 0 {} parts module := by
  obtain ⟨cursor, -, split, -⟩ := sections_of_decodeModule decoded
  rw [split, decodeModule_header] at decoded
  obtain ⟨stop, equation⟩ := outcome_eq_ok.mp decoded
  have enough : (Cursor.mk header.length cursor.rest).rest.length ≤ cursor.rest.length :=
    Nat.le_refl _
  obtain ⟨parts, rest, runs⟩ := exists_runs enough equation
  exact ⟨parts, ⟨split.trans (congrArg _ rest), runs.sized⟩, runs⟩

/-- **Sections in a run are a module** after the header. -/
theorem Runs.decodeModule_eq {parts : List RawSection} {module : Module}
    (runs : Runs header.length 0 {} parts module) :
    decodeModule (header ++ parts.flatMap RawSection.bytes) = .ok module := by
  rw [decodeModule_header]
  exact outcome_eq_ok.mpr (runs.reads_sections (Nat.le_refl _))

/-! ## Offsets on either side of a place -/

/-- Where an offset is found after bytes have been put in at a place. -/
def displaced (place count offset : Nat) : Nat :=
  if offset < place then offset else offset + count

/-- Offsets of opcodes lie in the bytes. -/
theorem LocatesOpcodes.lt {bytes : List UInt8} {body : Body} (locates : LocatesOpcodes bytes body)
    {offset : Nat} (member : offset ∈ body.offsets) : offset < bytes.length := by
  obtain ⟨sizes, opcodes⟩ := locates
  obtain ⟨index, inside, rfl⟩ := Array.mem_iff_getElem.mp member
  have counts : index < body.operators.length := by
    rw [Body.operators, List.length_map, Array.length_toList]
    exact Nat.lt_of_lt_of_eq inside sizes
  obtain ⟨offset, found, opcode, -, stands⟩ := opcodes index _ (List.getElem?_eq_getElem counts)
  rw [Array.getElem?_eq_getElem inside, Option.some.injEq] at found
  rw [found]
  exact (List.getElem?_eq_some_iff.mp stands).1

/-- **A run that starts at a distance** gives bodies at that distance. -/
theorem Runs.exists_shifted {position distance : Nat} {last : UInt8} {module result : Module}
    {parts : List RawSection} (runs : Runs position last module parts result)
    (further : distance ≤ position)
    (start : ∃ near : Module, module = near.mapOffsets (· + distance)) :
    ∃ near : Module, result = near.mapOffsets (· + distance) := by
  induction runs with
  | done => exact start
  | @step position last after module middle result part parts reads misses sized adds later
      laterInduction =>
      refine laterInduction (Nat.le_add_right_of_le further) ?_
      obtain ⟨near, rfl⟩ := start
      obtain ⟨position, rfl⟩ := Nat.exists_eq_add_of_le' further
      -- The section gives the same as at the start, further on.
      have far := nextSection_shifted (· + distance) distance last near
        ⟨position, part.bytes ++ []⟩ fun _ => rfl
      have here := (reads []).symm.trans far
      cases equation : nextSection last near ⟨position, part.bytes ++ []⟩ with
      | error error stop =>
          rw [equation] at here
          cases here
      | ok value stop =>
          rw [equation] at here
          exact ⟨value.2, congrArg Prod.snd (EStateM.Result.ok.inj here).1⟩

/-- Bodies of a module have their offsets in it. -/
theorem offset_lt_of_decodeModule {bytes : List UInt8} {module : Module}
    (decoded : decodeModule bytes = .ok module) :
    ∀ body ∈ module.bodies, ∀ offset ∈ body.offsets, offset < bytes.length := by
  intro body member offset among
  obtain ⟨later, reads⟩ := outcome_eq_ok.mp decoded
  obtain ⟨-, located⟩ := finds_module.reads (.ofBytes bytes) reads
  exact (located body member).lt among

/-- **The sections after a place are read further on**, whether the bodies are in them or not. -/
theorem Runs.moved {place : Nat} {reached : UInt8} {middle module : Module}
    {before after : List RawSection} (front : Runs header.length 0 {} before middle)
    (isPlace : place = header.length + (before.flatMap RawSection.bytes).length)
    (rest : Runs place reached middle after module)
    (alone : SectionKind.code.id ∈ before.map RawSection.id →
      SectionKind.code.id ∉ after.map RawSection.id) (count : Nat) :
    Runs (place + count) reached middle after (module.mapOffsets (displaced place count)) := by
  by_cases early : SectionKind.code.id ∈ before.map RawSection.id
  · -- The bodies are those of the front, so they lie in it.
    have absent := alone early
    have decoded := front.decodeModule_eq
    have bodies : middle.bodies = module.bodies := rest.same_of_absent absent
    have same : module.mapOffsets (displaced place count) = module.mapOffsets id := by
      refine Module.mapOffsets_congr fun body member offset among => if_pos ?_
      rw [isPlace, ← List.length_append]
      exact offset_lt_of_decodeModule decoded body (bodies ▸ member) offset among
    have onward : Runs (place + count) reached (middle.mapOffsets id) after
        (module.mapOffsets id) := rest.shifted fun member => absurd member absent
    rwa [Module.mapOffsets_id, ← same] at onward
  · -- There are no bodies so far, so those that come lie behind the place.
    have none : middle.bodies = [] := (front.same_of_absent early).symm
    obtain ⟨near, rfl⟩ := rest.exists_shifted (Nat.le_refl place)
      ⟨middle, (Module.mapOffsets_of_bodies none _).symm⟩
    have same : (near.mapOffsets (· + place)).mapOffsets (displaced place count) =
        (near.mapOffsets (· + place)).mapOffsets (· + count) := by
      refine Module.mapOffsets_congr fun body member offset among => if_neg ?_
      obtain ⟨origin, -, rfl⟩ := List.mem_map.mp member
      obtain ⟨first, -, rfl⟩ := Array.mem_map.mp among
      exact Nat.not_lt.mpr (Nat.le_add_left place first)
    rw [same, ← Module.mapOffsets_of_bodies none (· + count)]
    exact rest.shifted fun _ => rfl

end Binary

/-! ## Emission with other offsets -/

namespace Emission

variable (change : Nat → Nat) {module : Module}

/-- The place of a body with other offsets. -/
def Site.mapOffsets (site : Site) : Site :=
  { site with module := site.module.mapOffsets change, body := site.body.mapOffsets change }

/-- Other offsets change nothing about what is refused. -/
theorem violation?_mapOffsets (site : Site) (body : Body) :
    (body.mapOffsets change).violation? (site.mapOffsets change) = body.violation? site := by
  have each (instruction : Instruction) :
      instruction.violation? (site.mapOffsets change) = instruction.violation? site := by
    cases instruction with
    | plain instruction => cases instruction <;> rfl
    | _ => rfl
  rw [Body.violation?, Body.violation?, funext each]
  rfl

/-- An instruction has the same draft in a body with other offsets. -/
theorem draft_mapOffsets_plain (site : Site) (base : Nat) (stage : Stage)
    (instruction : PlainInstruction) :
    instruction.draft (site.mapOffsets change) base stage = instruction.draft site base stage := by
  cases instruction <;> rfl

/-- **Code with other offsets has the same draft.** -/
theorem draft_mapOffsets (site : Site) {depth : Nat} (code : Code depth) (scope : Scope depth)
    (stage : Stage) :
    (code.mapOffsets change).draft (site.mapOffsets change) scope stage =
      code.draft site scope stage := by
  induction code generalizing stage with
  | empty => rfl
  | plain offset instruction next nextInduction =>
      simp only [Code.mapOffsets, Code.draft, draft_mapOffsets_plain, Draft.andThen, nextInduction]
  | jump offset leap next nextInduction =>
      simp only [Code.mapOffsets, Code.draft, Draft.andThen, nextInduction]
  | block offset kind type body finish next bodyInduction nextInduction =>
      cases kind <;>
        simp only [Code.mapOffsets, Code.draft, Draft.andThen, bodyInduction, nextInduction]
  | ifThen offset type arm finish next armInduction nextInduction =>
      simp only [Code.mapOffsets, Code.draft, Draft.andThen, armInduction, nextInduction]
  | ifElse offset type arm middle otherwise finish next armInduction otherwiseInduction
      nextInduction =>
      simp only [Code.mapOffsets, Code.draft, Draft.andThen, armInduction, otherwiseInduction,
        nextInduction]

/-- **A function with other offsets has the same script** if it is not refused. -/
theorem scriptOfFunction_mapOffsets {site : Site} {code : Code 0} {finish : Nat}
    (linked : site.body = code.link site.body.locals finish)
    (allowed : site.body.violation? site = none) :
    scriptOfFunction (site.mapOffsets change) = scriptOfFunction site := by
  -- The body with other offsets is linked code as well, and no more refused than this one.
  have linkedToo : (site.mapOffsets change).body =
      (code.mapOffsets change).link (site.mapOffsets change).body.locals (change finish) := by
    rw [Code.link_mapOffsets]
    exact congrArg (Body.mapOffsets change) linked
  have allowedToo := (violation?_mapOffsets change site site.body).trans allowed
  rw [Body.violation?_of_link site linked] at allowed
  rw [scriptOfFunction_link linked allowed,
    scriptOfFunction_link linkedToo ((Body.violation?_of_link _ linkedToo).symm.trans allowedToo)]
  simp only [Site.directives, Site.draft, draft_mapOffsets]
  rfl

/-- Functions with changed offsets. -/
def entriesWith (entries : List (UInt32 × Body)) : List (UInt32 × Body) :=
  entries.map fun entry => (entry.1, entry.2.mapOffsets change)

/-- What is refused first is the same with other offsets. -/
theorem violationFrom_mapOffsets (index : Nat) (entries : List (UInt32 × Body)) :
    violationFrom (module.mapOffsets change) index (entriesWith change entries) =
      violationFrom module index entries := by
  induction entries generalizing index with
  | nil => rfl
  | cons entry rest restInduction =>
      obtain ⟨typeIndex, body⟩ := entry
      rw [entriesWith, List.map_cons, ← entriesWith, violationFrom, violationFrom, restInduction,
        Module.toDeclarations_mapOffsets]
      cases module.types[typeIndex.toNat]? with
      | none => rfl
      | some signature =>
          have here := violation?_mapOffsets change ⟨module, index, signature, body⟩ body
          exact congrArg (Option.or · _) here

/-- **Functions with other offsets have the same scripts** if they are not refused. -/
theorem scriptOfFunctions_mapOffsets {index : Nat} {entries : List (UInt32 × Body)}
    (structured : ∀ entry ∈ entries, Binary.Structured entry.2)
    (allowed : violationFrom module index entries = none) :
    scriptOfFunctions (module.mapOffsets change) index (entriesWith change entries) =
      scriptOfFunctions module index entries := by
  induction entries generalizing index with
  | nil => rfl
  | cons entry rest restInduction =>
      obtain ⟨typeIndex, body⟩ := entry
      obtain ⟨here, others⟩ := List.forall_mem_cons.mp structured
      obtain ⟨code, finish, linked⟩ := exists_link here
      rw [violationFrom] at allowed
      rw [entriesWith, List.map_cons, ← entriesWith, scriptOfFunctions, scriptOfFunctions,
        Module.toDeclarations_mapOffsets]
      cases declared : module.types[typeIndex.toNat]? with
      | none => rfl
      | some signature =>
          simp only [declared] at allowed
          obtain ⟨bodyAllowed, restAllowed⟩ := Option.or_eq_none_iff.mp allowed
          simp only [restInduction others restAllowed]
          have first := @scriptOfFunction_mapOffsets change ⟨module, index, signature, body⟩ code
            finish linked bodyAllowed
          exact congrArg (Script.andThen · _) first

/-- **Offsets make no difference to what is compiled**, if both modules were read. -/
theorem compile_mapOffsets (wellRead : Binary.WellRead module)
    (wellReadToo : Binary.WellRead (module.mapOffsets change)) (name : String) :
    (module.mapOffsets change).compile name = module.compile name := by
  have entries : module.functions.zip (module.bodies.map (Body.mapOffsets change)) =
      entriesWith change (module.functions.zip module.bodies) := List.zip_map_right ..
  have same : moduleViolation? (module.mapOffsets change) = moduleViolation? module := by
    simp only [moduleViolation?, Module.functions_mapOffsets, Module.bodies_mapOffsets,
      Module.toDeclarations_mapOffsets, List.length_map, entries, violationFrom_mapOffsets]
  cases refused : moduleViolation? module with
  | some error =>
      rw [compile_of_refused wellRead refused, compile_of_refused wellReadToo (same.trans refused)]
  | none =>
      -- Both scripts declare the same, and go on in the same way.
      unfold moduleViolation? at refused
      split at refused
      · next counts =>
          have scripts := scriptOfFunctions_mapOffsets change
            (fun _ member => structured_of_mem_zip wellRead member) refused
          simp only [Module.compile, Bytecode.assemble, script, Module.functions_mapOffsets,
            Module.bodies_mapOffsets, Module.toDeclarations_mapOffsets, List.length_map, entries,
            scripts, if_pos counts, Script.andThen]
          rfl
      · cases refused

end Emission

namespace Binary

open Decoder Varint

/-! ## Whole modules -/

/-- Bytes with others put in at a place. -/
def insertedAt (place : Nat) (inserted bytes : List UInt8) : List UInt8 :=
  bytes.take place ++ (inserted ++ bytes.drop place)

/-- **Custom sections are transparent.** The bytes of a module are the header and sections, in one
way only. If a section of number 0 is put in where the header or a section ends, whatever it holds,
the bytes are again those of a module: it differs in the offsets of bodies only, which grow by the
length of the section if they lie behind the place. Both compile to the same, or are refused for the
same reason. -/
theorem custom_sections_transparent {bytes : List UInt8} {module : Module}
    (decoded : decodeModule bytes = .ok module) :
    (∃ parts, IsSectioned bytes parts) ∧
    ∀ parts, IsSectioned bytes parts → ∀ before, before <+: parts →
      ∀ place, place = 8 + (before.flatMap RawSection.bytes).length →
      ∀ custom : RawSection, custom.id = SectionKind.customId → custom.IsSized →
        decodeModule (insertedAt place custom.bytes bytes) =
            .ok (module.mapOffsets (displaced place custom.bytes.length)) ∧
          ∀ name, compile name (insertedAt place custom.bytes bytes) = compile name bytes := by
  obtain ⟨parts, sectioned, runs⟩ := runs_of_decodeModule decoded
  refine ⟨⟨parts, sectioned⟩, fun others sectionedToo => ?_⟩
  obtain rfl := sectioned.unique sectionedToo
  rintro before ⟨after, rfl⟩ place isPlace custom passed sized
  -- The run goes on after the custom section as it did before, but further on.
  obtain ⟨reached, middle, rest, goesOn⟩ := runs.split
  have front := goesOn [] middle .done
  rw [List.append_nil] at front
  rw [← length_header] at isPlace
  rw [← isPlace] at rest goesOn
  have onward := front.moved isPlace rest runs.absent_after custom.bytes.length
  have whole := goesOn (custom :: after) _ (runs_custom passed sized onward)
  have split : bytes =
      header ++ before.flatMap RawSection.bytes ++ after.flatMap RawSection.bytes := by
    rw [sectioned.split, List.flatMap_append, List.append_assoc]
  have same : insertedAt place custom.bytes bytes =
      header ++ (before ++ custom :: after).flatMap RawSection.bytes := by
    rw [insertedAt, split, isPlace, ← List.length_append, List.take_left, List.drop_left,
      List.flatMap_append, List.flatMap_cons, List.append_assoc]
  have inserted : decodeModule (insertedAt place custom.bytes bytes) = _ :=
    same ▸ whole.decodeModule_eq
  refine ⟨inserted, fun name => ?_⟩
  have compiled := Emission.compile_mapOffsets _ (wellRead_of_decodeModule decoded)
    (wellRead_of_decodeModule inserted) name
  rw [compile, compile, inserted, decoded]
  simp only [compiled]

/-- The sections of a module with a function that does nothing. -/
def idleSections : List RawSection :=
  [⟨0x01, [0x04], [0x01, 0x60, 0x00, 0x00]⟩, ⟨0x03, [0x02], [0x01, 0x00]⟩,
    ⟨0x0a, [0x05], [0x01, 0x03, 0x00, 0x01, 0x0b]⟩]

/-- The module, if its first opcode lies at an offset. -/
def idleModule (first : Nat) : Module where
  types := [⟨[], []⟩]
  functions := [0]
  bodies := [⟨[], #[.plain .nop, .finish none], #[first, first + 1], 0⟩]

/-- A custom section that holds what looks like a code section, with a longer numeral than needed.
-/
def misleadingSection : RawSection :=
  ⟨0x00, [0x83, 0x00], [0x0a, 0x01, 0x00]⟩

/-- In front of the code section the custom section moves the opcodes, behind it it does not. -/
theorem custom_sections_transparent_idle :
    ∃ bytes, decodeModule bytes = .ok (idleModule 23) ∧
      decodeModule (insertedAt 18 misleadingSection.bytes bytes) = .ok (idleModule 29) ∧
      decodeModule (insertedAt 25 misleadingSection.bytes bytes) = .ok (idleModule 23) ∧
      ∀ name, compile name (insertedAt 18 misleadingSection.bytes bytes) = compile name bytes := by
  have decoded : decodeModule (header ++ idleSections.flatMap RawSection.bytes) =
      .ok (idleModule 23) := by decide +kernel
  have sectioned : IsSectioned (header ++ idleSections.flatMap RawSection.bytes)
      idleSections := by
    refine ⟨rfl, ?_⟩
    simp only [idleSections, List.forall_mem_cons]
    refine ⟨⟨by decide, .last _ rfl, by decide, ?_, by decide⟩,
      ⟨by decide, .last _ rfl, by decide, ?_, by decide⟩,
      ⟨by decide, .last _ rfl, by decide, ?_, by decide⟩, List.forall_mem_nil _⟩
    all_goals simp [number_cons]
  have sized : misleadingSection.IsSized := by
    refine ⟨by decide, .more _ rfl (.last _ rfl), by decide, ?_, by decide⟩
    simp [misleadingSection, number_cons]
  obtain ⟨-, transparent⟩ := custom_sections_transparent decoded
  obtain ⟨moved, compiled⟩ := transparent idleSections sectioned (idleSections.take 2)
    (List.take_prefix 2 _) 18 rfl misleadingSection rfl sized
  obtain ⟨kept, -⟩ := transparent idleSections sectioned idleSections List.prefix_rfl 25 rfl
    misleadingSection rfl sized
  have moves : (idleModule 23).mapOffsets (displaced 18 6) = idleModule 29 := by
    simp [idleModule, Module.mapOffsets, Body.mapOffsets, displaced]
  have keeps : (idleModule 23).mapOffsets (displaced 25 6) = idleModule 23 := by
    simp [idleModule, Module.mapOffsets, Body.mapOffsets, displaced]
  exact ⟨_, decoded, moves ▸ moved, keeps ▸ kept, compiled⟩

end Binary

end WasmCompiler
