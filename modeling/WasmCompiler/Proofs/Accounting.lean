import Mathlib.Algebra.BigOperators.Group.List.Basic
import Mathlib.Algebra.Order.BigOperators.Group.List
import WasmCompiler.Proofs.RoundTrip

/-! # What the bytes of a module pay for

Counts in a module are integers of 32 bits, but what they announce has to be there: every record of
a section, and everything counted inside a record, takes at least one byte of its own. So a module
holds no more things than the bytes that it is read from.

* **`Module.thingCount`** — the number of things that a module holds;
* **`Decoder.Pays`** — a decoder that reads as many records as it announces and pays for them;
* **`pays_payload`** — the contents of every section with a count;
* **`decoding_never_amplifies`** — the bound for whole modules and for every section. -/

namespace WasmCompiler

/-- The number of levels that a table of branches selects from, apart from the last one. -/
def Instruction.targetCount : Instruction → Nat
  | .branchTable targets _ => targets.length
  | _ => 0

/-- The number of levels in all tables of branches of a body. -/
def Body.targetCount (body : Body) : Nat :=
  (body.instructions.toList.map Instruction.targetCount).sum

/-- **The number of things that a module holds**: types and their parameters, imports, functions,
globals, exports, segments of the table and the functions in them, segments of the memory and the
bytes in them, and bodies with their instructions and the levels in their tables of branches. -/
def Module.thingCount (module : Module) : Nat :=
  module.types.length + (module.types.map fun type => type.params.length).sum +
    module.imports.length + module.functions.length + module.globals.length +
    module.exports.length +
    module.elements.length + (module.elements.map fun segment => segment.functions.length).sum +
    module.data.length + (module.data.map fun segment => segment.bytes.length).sum +
    module.bodies.length + (module.bodies.map Body.size).sum +
    (module.bodies.map Body.targetCount).sum

namespace Binary

open Decoder Varint

variable {α β : Type}

/-! ## Records and what they hold -/

namespace SectionKind

/-- The number of records that a section of a kind adds to a module. -/
def recordCount (module : Module) : SectionKind → Nat
  | .types => module.types.length
  | .imports => module.imports.length
  | .functions => module.functions.length
  | .table => module.table.toList.length
  | .memory => module.memory.toList.length
  | .globals => module.globals.length
  | .exports => module.exports.length
  | .start => module.start.toList.length
  | .elements => module.elements.length
  | .code => module.bodies.length
  | .data => module.data.length

/-- The number of these records and of the things counted inside them. -/
def thingCount (module : Module) : SectionKind → Nat
  | .types => (module.types.map fun type => 1 + type.params.length).sum
  | .imports => module.imports.length
  | .functions => module.functions.length
  | .table => module.table.toList.length
  | .memory => module.memory.toList.length
  | .globals => module.globals.length
  | .exports => module.exports.length
  | .start => module.start.toList.length
  | .elements => (module.elements.map fun segment => 1 + segment.functions.length).sum
  | .code => (module.bodies.map fun body => 1 + (body.size + body.targetCount)).sum
  | .data => (module.data.map fun segment => 1 + segment.bytes.length).sum

/-- Modules that agree in a section have as many things in it. -/
theorem thingCount_congr {first second : Module} {kind : SectionKind}
    (same : Same first second kind) : kind.thingCount first = kind.thingCount second := by
  cases kind <;> simp only [Same] at same <;> simp only [thingCount, same]

/-- Every record is a thing. -/
theorem recordCount_le_thingCount (module : Module) (kind : SectionKind) :
    kind.recordCount module ≤ kind.thingCount module := by
  cases kind with
  | types | elements | code | data =>
      simp only [recordCount, thingCount, List.sum_map_add, List.map_const', List.sum_replicate,
        smul_eq_mul, mul_one]
      exact Nat.le_add_right _ _
  | imports | functions | table | memory | globals | exports | start => exact Nat.le_refl _

/-- The number of things that the sections of all kinds add to a module. -/
def totalCount (module : Module) : Nat :=
  (all.map fun kind => kind.thingCount module).sum

/-- A module has no more things than its sections add. -/
theorem thingCount_le_totalCount (module : Module) : module.thingCount ≤ totalCount module := by
  simp only [Module.thingCount, totalCount, all, thingCount, List.map_cons, List.map_nil,
    List.sum_cons, List.sum_nil, List.sum_map_add, List.map_const', List.sum_replicate, smul_eq_mul,
    mul_one]
  omega

/-- **A section adds its own things only.** -/
theorem totalCount_le_of_onlyAdds {kind : SectionKind} {before after : Module}
    (only : OnlyAdds kind before after) :
    totalCount after ≤ totalCount before + kind.thingCount after := by
  have others : (all.erase kind).map (fun other => other.thingCount after) =
      (all.erase kind).map fun other => other.thingCount before := by
    refine List.map_congr_left fun other member => ?_
    exact (thingCount_congr (only other (nodup_all.mem_erase_iff.mp member).1)).symm
  have first := List.sum_map_erase (fun other => other.thingCount after) kind.mem_all
  have second := List.sum_map_erase (fun other => other.thingCount before) kind.mem_all
  rw [others] at first
  simp only [totalCount]
  omega

end SectionKind

/-! ## Decoders that pay for what they read -/

namespace Decoder

/-- **Whether a decoder reads as many records as it announces and pays for them**: a count stands
first, there are that many records, and what they hold is no more than the bytes that they take
after the count. -/
def Pays (decoder : Decoder α) (records things : α → Nat) : Prop :=
  ∀ cursor later value, decoder cursor = .ok value later →
    ∃ count middle, unsigned32 cursor = .ok count middle ∧ records value = count.toNat ∧
      things value + later.remaining ≤ middle.remaining

variable {decoder : Decoder α} {records things : α → Nat}

/-- What is read leaves no more bytes than there were. -/
theorem remaining_le_of_admits {form : List UInt8 → α → Prop} (admits : Admits decoder form)
    {cursor later : Cursor} {value : α} (equation : decoder cursor = .ok value later) :
    later.remaining ≤ cursor.remaining := by
  obtain ⟨bytes, rest, -, -⟩ := admits _ _ _ equation
  rw [Cursor.remaining, Cursor.remaining, rest, List.length_append]
  exact Nat.le_add_left _ _

/-- A decoder that takes a byte for each thing leaves that many fewer. -/
theorem things_le_of_admits (admits : Admits decoder fun bytes value => things value ≤ bytes.length)
    {cursor later : Cursor} {value : α} (equation : decoder cursor = .ok value later) :
    things value + later.remaining ≤ cursor.remaining := by
  obtain ⟨bytes, rest, -, paid⟩ := admits _ _ _ equation
  rw [Cursor.remaining, Cursor.remaining, rest, List.length_append]
  exact Nat.add_le_add_right paid _

/-- **A count and a decoder of that many records** pay if the records do. -/
theorem pays_counted {onward : UInt32 → Decoder α}
    (admits : ∀ count, Admits (onward count) fun bytes value =>
      records value = count.toNat ∧ things value ≤ bytes.length) :
    Pays (unsigned32 >>= onward) records things := by
  intro cursor later value equation
  obtain ⟨count, middle, counted, equation⟩ := Stateful.bind_eq_ok.mp equation
  obtain ⟨-, -, -, length, -⟩ := admits count _ _ _ equation
  exact ⟨count, middle, counted, length,
    things_le_of_admits ((admits count).imp fun _ _ holds => holds.2) equation⟩

/-- A change of the value that keeps its records and its things keeps them paid for. -/
theorem Pays.map {recordsOf thingsOf : β → Nat} (pays : Pays decoder records things)
    (change : α → β) (sameRecords : ∀ value, recordsOf (change value) = records value)
    (sameThings : ∀ value, thingsOf (change value) = things value) :
    Pays (do return change (← decoder)) recordsOf thingsOf := by
  intro cursor later value equation
  obtain ⟨before, stop, starts, equation⟩ := Stateful.bind_eq_ok.mp equation
  cases equation
  obtain ⟨count, middle, counted, length, paid⟩ := pays _ _ _ starts
  exact ⟨count, middle, counted, (sameRecords before).trans length, sameThings before ▸ paid⟩

/-- The position is known without reading. -/
theorem Pays.afterPosition {next : Nat → Decoder α}
    (pays : ∀ offset, Pays (next offset) records things) :
    Pays (position >>= next) records things := by
  intro cursor later value equation
  obtain ⟨offset, middle, offsetEquation, equation⟩ := Stateful.bind_eq_ok.mp equation
  cases offsetEquation
  exact pays _ _ _ _ equation

/-- What a decoder that pays has read is paid for by all bytes that it took. -/
theorem Pays.things_le (pays : Pays decoder records things) {cursor later : Cursor} {value : α}
    (equation : decoder cursor = .ok value later) :
    things value + later.remaining ≤ cursor.remaining := by
  obtain ⟨count, middle, counted, -, paid⟩ := pays _ _ _ equation
  exact paid.trans (remaining_le_of_admits admits_unsigned32 counted)

/-- **A count beyond the bytes that are left is refused.** -/
theorem Pays.refuses (pays : Pays decoder records things)
    (each : ∀ value, records value ≤ things value) {cursor middle : Cursor} {count : UInt32}
    (counted : unsigned32 cursor = .ok count middle) (many : middle.remaining < count.toNat) :
    ∃ error stop, decoder cursor = .error error stop := by
  cases equation : decoder cursor with
  | error error stop => exact ⟨error, stop, rfl⟩
  | ok value later =>
      obtain ⟨_, _, same, length, paid⟩ := pays _ _ _ equation
      cases counted.symm.trans same
      have enough := each value
      omega

end Decoder

/-! ## Runs of records -/

/-- Things are paid for in a run if they are in each item. -/
theorem sum_le_of_items {things : α → Nat} {bytes : List UInt8} {values : List α}
    (items : Items (fun bytes value => things value ≤ bytes.length) bytes values) :
    (values.map things).sum ≤ bytes.length := by
  induction items with
  | nil => exact Nat.le_refl 0
  | cons holds later laterInduction =>
      rw [List.map_cons, List.sum_cons, List.length_append]
      exact Nat.add_le_add holds laterInduction

/-- **A vector pays for its items** if each item pays for itself. -/
theorem pays_vector {item : Decoder α} {things : α → Nat}
    (admits : Admits item fun bytes value => things value ≤ bytes.length) :
    Pays (vector item) List.length fun values => (values.map things).sum := by
  refine pays_counted fun count => (admits_repeatOnto admits count.toNat []).imp ?_
  rintro bytes _ ⟨values, rfl, length, items⟩
  exact ⟨length, sum_le_of_items items⟩

/-- A vector pays for its items one by one if they are decoded from at least one byte. -/
theorem Codec.pays {item : Decoder α} {encode : α → List UInt8} {valid : α → Prop}
    (codec : Codec item encode valid) {things : α → Nat}
    (each : ∀ value, things value ≤ (encode value).length) :
    Pays (Decoder.vector item) List.length fun values => (values.map things).sum :=
  pays_vector (codec.admits.imp fun _ value holds => (each value).trans holds.2)

/-- The same for items without anything counted inside them. -/
theorem Codec.paysSingly {item : Decoder α} {encode : α → List UInt8} {valid : α → Prop}
    (codec : Codec item encode valid) (each : ∀ value, 1 ≤ (encode value).length) :
    Pays (Decoder.vector item) List.length List.length := by
  have pays := codec.pays each
  simp only [List.map_const', List.sum_replicate, smul_eq_mul, mul_one] at pays
  exact pays

/-- Encodings in a row are no shorter than what each of them pays for. -/
theorem sum_le_length_flatMap {encode : α → List UInt8} {things : α → Nat} (values : List α)
    (each : ∀ value, things value ≤ (encode value).length) :
    (values.map things).sum ≤ (values.flatMap encode).length := by
  rw [List.length_flatMap]
  exact List.sum_le_sum fun value _ => each value

/-- Encodings in a row are no shorter than they are many. -/
theorem length_le_length_flatMap {encode : α → List UInt8} (values : List α)
    (each : ∀ value, 1 ≤ (encode value).length) :
    values.length ≤ (values.flatMap encode).length := by
  have items := sum_le_length_flatMap values each
  rwa [List.map_const', List.sum_replicate, smul_eq_mul, mul_one] at items

/-- A vector is no shorter than its items are many. -/
theorem length_le_length_encodeVector {encode : α → List UInt8} (values : List α)
    (each : ∀ value, 1 ≤ (encode value).length) :
    values.length ≤ (encodeVector encode values).length := by
  rw [encodeVector, List.length_append]
  exact (length_le_length_flatMap values each).trans (Nat.le_add_left _ _)

/-! ## Records of every kind -/

/-- An index takes at least one byte. -/
theorem one_le_length_encodeIndex (index : UInt32) : 1 ≤ (encodeIndex index).length :=
  length_unsignedForm_pos index.toNat

/-- A signature takes a byte for itself and one for each parameter. -/
theorem things_le_encodeSignature (signature : Signature) :
    1 + signature.params.length ≤ (encodeSignature signature).length := by
  have each (type : ValueType) : 1 ≤ (encodeValueType type).length := Nat.le_refl 1
  have params := length_le_length_encodeVector signature.params each
  rw [encodeSignature, List.length_cons, List.length_append]
  omega

/-- Limits take at least one byte. -/
theorem one_le_length_encodeLimits (limits : Limits) : 1 ≤ (encodeLimits limits).length := by
  have first := length_unsignedForm_pos limits.maximum.isSome.toNat
  rw [encodeLimits, List.length_append, encodeFlag]
  omega

/-- An import takes at least one byte. -/
theorem one_le_length_encodeImport (entry : Import) : 1 ≤ (encodeImport entry).length := by
  obtain ⟨moduleName, field, kind⟩ := entry
  have last : 1 ≤ (encodeImportKind kind).length := by
    cases kind <;> exact Nat.succ_pos _
  simp only [encodeImport, List.length_append]
  omega

/-- A global takes at least one byte. -/
theorem one_le_length_encodeGlobal (entry : Global) : 1 ≤ (encodeGlobal entry).length :=
  Nat.succ_pos _

/-- An export takes at least one byte. -/
theorem one_le_length_encodeExport (entry : Export) : 1 ≤ (encodeExport entry).length := by
  obtain ⟨name, entity⟩ := entry
  have last : 1 ≤ (encodeEntity entity).length := by
    cases entity <;> exact Nat.succ_pos _
  simp only [encodeExport, List.length_append]
  omega

/-- A segment of a table takes a byte for itself and one for each function. -/
theorem things_le_encodeElementSegment (segment : ElementSegment) :
    1 + segment.functions.length ≤ (encodeElementSegment segment).length := by
  have first := one_le_length_encodeIndex 0
  have functions := length_le_length_encodeVector segment.functions one_le_length_encodeIndex
  simp only [encodeElementSegment, List.length_append]
  omega

/-- A segment of memory takes a byte for itself and those that it holds. -/
theorem things_le_encodeDataSegment (segment : DataSegment) :
    1 + segment.bytes.length ≤ (encodeDataSegment segment).length := by
  have first := one_le_length_encodeIndex 0
  simp only [encodeDataSegment, encodeSized, List.length_append]
  omega

/-- An instruction pays for itself and for the levels that it selects from. -/
theorem things_le_encodeOperator (instruction : Instruction) :
    1 + instruction.targetCount ≤ (encodeOperator instruction.operator).length := by
  cases instruction with
  | branchTable targets fallback =>
      have levels := length_le_length_encodeVector
        (targets.map fun target => target.depth.toUInt32) one_le_length_encodeIndex
      rw [List.length_map] at levels
      simp only [Instruction.targetCount, Instruction.operator, encodeOperator, List.length_cons,
        List.length_append]
      omega
  | plain instruction =>
      cases instruction with
      | const value => cases value <;> exact Nat.succ_pos _
      | _ => exact Nat.succ_pos _
  | _ => exact Nat.succ_pos _

/-- A body pays for itself by the numeral of its length, and then for its instructions. -/
theorem things_le_encodeBody (body : Body) :
    1 + (body.size + body.targetCount) ≤ (encodeSized (encodeBody body)).length := by
  have first := length_unsignedForm_pos (encodeBody body).length
  have code := sum_le_length_flatMap body.instructions.toList things_le_encodeOperator
  have split : (body.instructions.toList.map fun instruction => 1 + instruction.targetCount).sum =
      body.size + body.targetCount := by
    simp only [List.sum_map_add, List.map_const', List.sum_replicate, smul_eq_mul, mul_one,
      Array.length_toList, Body.targetCount, Body.size]
  have operators : (body.operators.flatMap encodeOperator).length =
      (body.instructions.toList.flatMap fun instruction =>
        encodeOperator instruction.operator).length := by
    rw [Body.operators, List.flatMap_map]
  simp only [encodeSized, List.length_append]
  have whole : (encodeBody body).length =
      (encodeLocals body.locals).length + (body.operators.flatMap encodeOperator).length :=
    List.length_append
  omega

/-! ## Sections -/

/-- A section of at most one entry pays for it. -/
theorem pays_singleton (kind : Singleton) (present : Bool) {entry : Decoder Limits}
    (admits : Admits entry fun bytes _ => 1 ≤ bytes.length) :
    Pays (singleton kind present entry) (fun found => found.toList.length)
      fun found => found.toList.length := by
  refine .afterPosition fun offset => pays_counted fun count => ?_
  split
  · next empty => exact admits_pure ⟨(congrArg UInt32.toNat empty).symm, Nat.le_refl 0⟩
  · next filled =>
      refine .refuse fun absent => admits.bind fun limits bytes paid => .refuse fun few => ?_
      have one : count.toNat = 1 := by
        rw [UInt32.lt_iff_toNat_lt] at few
        rw [← UInt32.toNat_inj] at filled
        simp only [UInt32.reduceToNat] at filled few
        omega
      refine admits_pure ⟨one.symm, ?_⟩
      rw [List.append_nil]
      exact paid

/-- **The contents of every section with a count** are as many records as it announces, and pay for
them and for what they hold. -/
theorem pays_payload {kind : SectionKind} (counted : kind ≠ .start) (module : Module) :
    Pays (payload kind module) (fun result => kind.recordCount result)
      fun result => kind.thingCount result := by
  cases kind with
  | types =>
      exact (codec_signature.pays things_le_encodeSignature).map _ (fun _ => rfl) fun _ => rfl
  | imports =>
      refine pays_counted fun count =>
        (admits_importsOnto count.toNat [] (Nat.zero_le 1) (Nat.zero_le 1)).map _ ?_
      rintro bytes imports ⟨entries, same, length, -, short, -⟩
      obtain rfl : imports = entries := same
      exact ⟨length, (length_le_length_flatMap _ one_le_length_encodeImport).trans short⟩
  | functions =>
      exact (codec_index.paysSingly one_le_length_encodeIndex).map _ (fun _ => rfl) fun _ => rfl
  | table =>
      refine (pays_singleton .table _ ?_).map _ (fun _ => rfl) fun _ => rfl
      exact codec_tableType.admits.imp fun _ limits holds =>
        Nat.lt_of_lt_of_le (Nat.succ_pos _) holds.2
  | memory =>
      refine (pays_singleton .memory _ ?_).map _ (fun _ => rfl) fun _ => rfl
      exact codec_limits.admits.imp fun _ limits holds =>
        (one_le_length_encodeLimits limits).trans holds.2
  | globals =>
      exact (codec_global.paysSingly one_le_length_encodeGlobal).map _ (fun _ => rfl) fun _ => rfl
  | exports =>
      exact (codec_export.paysSingly one_le_length_encodeExport).map _ (fun _ => rfl) fun _ => rfl
  | start => exact absurd rfl counted
  | elements =>
      exact (codec_elementSegment.pays things_le_encodeElementSegment).map _ (fun _ => rfl)
        fun _ => rfl
  | code =>
      have pays : Pays (vector codeEntry) List.length fun bodies =>
          (bodies.map fun body => 1 + (body.size + body.targetCount)).sum :=
        pays_vector (admits_codeEntry.imp fun _ body holds =>
          (things_le_encodeBody body).trans holds.2)
      exact pays.map _ (fun _ => rfl) fun _ => rfl
  | data =>
      exact (codec_dataSegment.pays things_le_encodeDataSegment).map _ (fun _ => rfl) fun _ => rfl

/-- **Every section pays** for what it adds to a module. -/
theorem thingCount_payload {kind : SectionKind} {module result : Module} {cursor later : Cursor}
    (equation : payload kind module cursor = .ok result later) :
    kind.thingCount result + later.remaining ≤ cursor.remaining := by
  by_cases counted : kind = .start
  · subst counted
    have admits : Admits (payload .start module) fun bytes result =>
        SectionKind.start.thingCount result ≤ bytes.length :=
      codec_index.admits.map _ fun bytes index holds =>
        (one_le_length_encodeIndex index).trans holds.2
    exact things_le_of_admits admits equation
  · exact (pays_payload counted module).things_le equation

/-- **A section with its number and its length pays** for what it adds to a module. -/
theorem admits_nextSection_totalCount (last : UInt8) (module : Module) :
    Admits (nextSection last module) fun bytes result =>
      SectionKind.totalCount result.2 ≤ SectionKind.totalCount module + bytes.length := by
  have identified : Admits unsigned7 fun _ _ => True :=
    (admits_unsigned 7).map _ fun _ _ _ => trivial
  refine .afterPosition fun offset => identified.bind fun id first _ => ?_
  refine admits_unsigned32.bind fun length second spells => ?_
  refine (admits_window length.toNat).bind ?_
  rintro window third ⟨size, rest⟩
  split
  · exact admits_pure (Nat.le_add_right _ _)
  split
  · exact admits_throw _
  · refine .refuse fun ordered => admits_within.map _ ?_
    rintro _ result ⟨-, later, equation⟩
    obtain ⟨part, middle, inside, equation⟩ := Stateful.bind_eq_ok.mp equation
    obtain ⟨_, last', -, equation⟩ := Stateful.bind_eq_ok.mp equation
    cases equation
    have only := SectionKind.totalCount_le_of_onlyAdds (SectionKind.onlyAdds_of_payload inside)
    have paid := thingCount_payload inside
    rw [Cursor.remaining, Cursor.remaining, rest] at paid
    simp only [List.length_append]
    omega

/-- Sections pay for what they add to a module. -/
theorem totalCount_sections {fuel : Nat} {last : UInt8} {module result : Module}
    {cursor later : Cursor} (equation : sections fuel last module cursor = .ok result later) :
    SectionKind.totalCount result ≤ SectionKind.totalCount module + cursor.remaining := by
  induction fuel generalizing last module cursor with
  | zero =>
      cases equation
      exact Nat.le_add_right _ _
  | succ fuel fuelInduction =>
      rw [sections, Stateful.bind_of_ok _ (Stateful.get_apply cursor)] at equation
      split at equation
      · cases equation
        exact Nat.le_add_right _ _
      · obtain ⟨⟨after, more⟩, middle, step, equation⟩ := Stateful.bind_eq_ok.mp equation
        obtain ⟨bytes, rest, -, paid⟩ := admits_nextSection_totalCount last module _ _ _ step
        have others := fuelInduction equation
        have whole := congrArg List.length rest
        rw [List.length_append] at whole
        simp only [Cursor.remaining] at others paid ⊢
        omega

/-! ## Whole modules -/

/-- **Decoding never amplifies.** A module that is read holds, beside the eight bytes of the header,
no more things than there are bytes, and no body has more than 50000 locals. The contents of a
section are no more records than bytes, whatever count they start with: a count that is not refused
is the number of records, which pay for themselves and for all that is counted inside them with the
bytes after the count. A count beyond these bytes is refused. -/
theorem decoding_never_amplifies :
    (∀ (bytes : List UInt8) (module : Module), decodeModule bytes = .ok module →
      8 + module.thingCount ≤ bytes.length ∧
        ∀ body ∈ module.bodies, body.locals.length ≤ 50000) ∧
    ∀ (kind : SectionKind) (module : Module) (cursor : Cursor),
      (∀ result later, payload kind module cursor = .ok result later →
        kind.recordCount result + later.remaining ≤ cursor.remaining ∧
          (kind ≠ .start → ∃ count middle, unsigned32 cursor = .ok count middle ∧
            kind.recordCount result = count.toNat ∧
            kind.thingCount result + later.remaining ≤ middle.remaining)) ∧
      (∀ count middle, kind ≠ .start → unsigned32 cursor = .ok count middle →
        middle.remaining < count.toNat →
        ∃ error stop, payload kind module cursor = .error error stop) := by
  refine ⟨fun bytes module decoded => ⟨?_, fun body member => ?_⟩,
    fun kind module cursor => ⟨fun result later equation => ⟨?_, fun counted => ?_⟩, ?_⟩⟩
  · obtain ⟨cursor, later, rfl, equation⟩ := sections_of_decodeModule decoded
    have paid := totalCount_sections equation
    have nothing : SectionKind.totalCount {} = 0 := rfl
    have things := SectionKind.thingCount_le_totalCount module
    have eight : header.length = 8 := rfl
    rw [List.length_append, eight]
    rw [Cursor.remaining] at paid
    omega
  · exact (((encodable_of_decodeModule decoded).contents .code).2 body member).locals
  · have records := kind.recordCount_le_thingCount result
    have paid := thingCount_payload equation
    omega
  · exact pays_payload counted module _ _ _ equation
  · intro count middle counted announced many
    exact (pays_payload counted module).refuses
      (fun result => kind.recordCount_le_thingCount result) announced many

/-- Bytes with a count of every kind: parameters, functions of a segment of the table, levels of a
table of branches and bytes of a segment of the memory. -/
def countingBytes : List UInt8 :=
  [0x00, 0x61, 0x73, 0x6d, 0x01, 0x00, 0x00, 0x00,
    0x01, 0x05, 0x01, 0x60, 0x01, 0x7f, 0x00,
    0x03, 0x02, 0x01, 0x00,
    0x04, 0x04, 0x01, 0x70, 0x00, 0x02,
    0x09, 0x08, 0x01, 0x00, 0x41, 0x00, 0x0b, 0x02, 0x00, 0x00,
    0x0a, 0x10, 0x01, 0x0e, 0x01, 0x02, 0x7f, 0x02, 0x40, 0x20, 0x00, 0x0e, 0x02, 0x00, 0x00, 0x00,
    0x0b, 0x0b,
    0x0b, 0x08, 0x01, 0x00, 0x41, 0x00, 0x0b, 0x02, 0x61, 0x62]

/-- The module of these bytes. -/
def countingModule : Module where
  types := [⟨[.i32], []⟩]
  functions := [0]
  table := some ⟨2, none⟩
  elements := [⟨.constant (.i32 0), [0, 0]⟩]
  bodies := [{
    locals := [.i32, .i32]
    instructions := #[.block none 0 (some 3), .plain (.getLocal 0),
      .branchTable [⟨0, 0⟩, ⟨0, 0⟩] ⟨0, 0⟩, .finish (some 0), .finish none]
    offsets := #[42, 44, 46, 51, 52]
    labelCount := 1 }]
  data := [⟨.constant (.i32 0), [0x61, 0x62]⟩]

/-- These bytes pay for the things that they hold, and the greatest count there is, in front of a
single byte, is refused. -/
theorem decoding_never_amplifies_counting :
    decodeModule countingBytes = .ok countingModule ∧ countingModule.thingCount = 17 ∧
      8 + countingModule.thingCount ≤ countingBytes.length ∧
      (∀ body ∈ countingModule.bodies, body.locals.length ≤ 50000) ∧
      ∃ error stop, payload .functions {} ⟨8, [0xff, 0xff, 0xff, 0xff, 0x0f, 0x00]⟩ =
        .error error stop := by
  have decoded : decodeModule countingBytes = .ok countingModule := by decide +kernel
  have announced : unsigned32 ⟨8, [0xff, 0xff, 0xff, 0xff, 0x0f, 0x00]⟩ =
      .ok 0xffffffff ⟨13, [0x00]⟩ := by
    rfl
  obtain ⟨paid, few⟩ := decoding_never_amplifies.1 _ _ decoded
  exact ⟨decoded, rfl, paid, few,
    (decoding_never_amplifies.2 .functions {} _).2 _ _ (by decide) announced (by decide)⟩

end Binary

end WasmCompiler
