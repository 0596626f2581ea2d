import WasmCompiler.Proofs.Relocation

/-! # Sections

A section adds its part to a module and leaves the other parts alone. What it adds is what was
encoded, and what it adds can be encoded.

* **`SectionKind.Same`** — agreement of two modules on the part of one kind of section;
* **`exists_payload`**, **`admits_payload`** — both halves for what a section holds;
* **`reads_nextSection`**, **`admits_nextSection`** — both halves for a section with its number and
  its length. -/

namespace WasmCompiler.Binary

open Decoder Varint

variable {α β : Type}

/-! ## Parts of a module -/

namespace SectionKind

/-- Whether two modules agree on what a section of a kind holds. -/
def Same (first second : Module) : SectionKind → Prop
  | .types => first.types = second.types
  | .imports => first.imports = second.imports
  | .functions => first.functions = second.functions
  | .table => first.table = second.table
  | .memory => first.memory = second.memory
  | .globals => first.globals = second.globals
  | .exports => first.exports = second.exports
  | .start => first.start = second.start
  | .elements => first.elements = second.elements
  | .code => first.bodies = second.bodies
  | .data => first.data = second.data

variable {first second : Module} {kind : SectionKind}

/-- Modules that agree on everything are equal. -/
theorem eq_of_same (same : ∀ kind, Same first second kind) : first = second := by
  obtain ⟨⟨types, imports, table, memory, globals, exports, start, elements, data⟩, functions,
    bodies⟩ := first
  obtain rfl : types = second.types := same .types
  obtain rfl : imports = second.imports := same .imports
  obtain rfl : functions = second.functions := same .functions
  obtain rfl : table = second.table := same .table
  obtain rfl : memory = second.memory := same .memory
  obtain rfl : globals = second.globals := same .globals
  obtain rfl : exports = second.exports := same .exports
  obtain rfl : start = second.start := same .start
  obtain rfl : elements = second.elements := same .elements
  obtain rfl : bodies = second.bodies := same .code
  obtain rfl : data = second.data := same .data
  rfl

/-- A module agrees with itself. -/
theorem same_refl (module : Module) (kind : SectionKind) : Same module module kind := by
  cases kind <;> exact rfl

/-- Modules that agree do so in both directions. -/
theorem same_symm (same : Same first second kind) : Same second first kind := by
  cases kind <;> exact Eq.symm same

/-- Modules that agree with a third agree. -/
theorem same_trans {third : Module} (one : Same first second kind)
    (other : Same second third kind) : Same first third kind := by
  cases kind <;> exact Eq.trans one other

/-- Modules that agree on a section both lack it, or neither does. -/
theorem isEmpty_congr (same : Same first second kind) :
    kind.isEmpty first = kind.isEmpty second := by
  cases kind <;> simp only [Same] at same <;> simp only [isEmpty, same]

/-- They encode it alike. -/
theorem encodePayload_congr (same : Same first second kind) :
    encodePayload first kind = encodePayload second kind := by
  cases kind <;> simp only [Same] at same <;> simp only [encodePayload, same]

/-- It fits its format in both, or in neither. -/
theorem fits_congr (same : Same first second kind) : kind.Fits first ↔ kind.Fits second := by
  cases kind <;> simp only [Same] at same <;> simp only [Fits, same]

/-- Modules without a part agree on it. -/
theorem same_of_isEmpty (firstEmpty : kind.isEmpty first = true)
    (secondEmpty : kind.isEmpty second = true) : Same first second kind := by
  cases kind <;> simp_all [isEmpty, Same]

/-- Whether a module differs from another one at most in what a section of a kind holds. -/
def OnlyAdds (kind : SectionKind) (before after : Module) : Prop :=
  ∀ other, other ≠ kind → Same before after other

/-- The sections are listed in the order of their identifiers. -/
theorem id_strictMono : all.Pairwise fun first second => first.id < second.id := by
  decide

/-- No section of a kind is passed over. -/
theorem id_ne_customId (kind : SectionKind) : kind.id ≠ customId := by
  cases kind <;> decide

/-- No section is listed twice. -/
theorem nodup_all : all.Nodup := by
  decide

/-- Every section is listed. -/
theorem mem_all (kind : SectionKind) : kind ∈ all := by
  cases kind <;> decide

end SectionKind

/-! ## Singletons -/

/-- Whether a module has at most one table and at most one memory, imports included. -/
structure IsSingle (module : Module) : Prop where
  /-- There is at most one table. -/
  tables : (module.imports.filterMap Import.table?).length + module.table.toList.length ≤ 1
  /-- There is at most one memory. -/
  memories : (module.imports.filterMap Import.memory?).length + module.memory.toList.length ≤ 1

/-- Something is missing if it is neither defined nor imported. -/
theorem missing_iff {defined : Option β} {find : α → Option β} {entries : List α} :
    (defined.isSome || entries.any fun entry => (find entry).isSome) = false ↔
      defined = none ∧ entries.filterMap find = [] := by
  rw [Bool.or_eq_false_iff, Option.isSome_eq_false_iff, Option.isNone_iff_eq_none,
    ← Bool.not_eq_true (List.any ..), not_any_isSome_iff]

/-- A module without a table neither has nor imports one. -/
theorem hasTable_eq_false_iff {module : Module} :
    module.hasTable = false ↔
      module.table = none ∧ module.imports.filterMap Import.table? = [] :=
  missing_iff

/-- A module without a memory neither has nor imports one. -/
theorem hasMemory_eq_false_iff {module : Module} :
    module.hasMemory = false ↔
      module.memory = none ∧ module.imports.filterMap Import.memory? = [] :=
  missing_iff

/-- What is defined is not imported. -/
theorem eq_nil_of_single {imported : List α} {defined : Option α}
    (single : imported.length + defined.toList.length ≤ 1) (found : defined ≠ none) :
    imported = [] := by
  obtain ⟨value, rfl⟩ := Option.ne_none_iff_exists'.mp found
  exact List.length_eq_zero_iff.mp (Nat.le_zero.mp (Nat.le_of_succ_le_succ single))

/-- What is defined only if it is not imported is there at most once. -/
theorem single_of_alone {imported : List α} {defined : Option α} (single : imported.length ≤ 1)
    (alone : defined ≠ none → imported = []) : imported.length + defined.toList.length ≤ 1 := by
  cases defined with
  | none => exact single
  | some value =>
      rw [alone (Option.some_ne_none value)]
      exact Nat.le_refl 1

/-! ## Payloads -/

namespace SectionKind

/-- The payload of a section adds only its own part. -/
theorem onlyAdds_of_payload {kind : SectionKind} {module result : Module} {cursor later : Cursor}
    (equation : payload kind module cursor = .ok result later) : OnlyAdds kind module result := by
  cases kind with
  | imports =>
      obtain ⟨count, start, -, equation⟩ := Stateful.bind_eq_ok.mp equation
      obtain ⟨entries, stop, -, equation⟩ := Stateful.bind_eq_ok.mp equation
      cases equation
      intro other different
      cases other <;> first | rfl | exact absurd rfl different
  | types | functions | table | memory | globals | exports | start | elements | code | data =>
      obtain ⟨part, stop, -, equation⟩ := Stateful.bind_eq_ok.mp equation
      cases equation
      intro other different
      cases other <;> first | rfl | exact absurd rfl different

end SectionKind

variable {kind : SectionKind}

/-- **What is encoded of a part is read as it**, if the module has nothing in its place yet. -/
theorem exists_payload {whole module : Module} (encodable : Encodable whole)
    (filled : kind.isEmpty whole = false) (waiting : kind.isEmpty module = true)
    (imported : SectionKind.imports.id < kind.id → module.imports = whole.imports)
    {position : Nat} (placed : kind = .code →
      position + (unsignedForm whole.bodies.length).length = whole.codePosition) :
    ∃ result, Reads (payload kind module) position (encodePayload whole kind) result ∧
      SectionKind.Same whole.placed result kind := by
  have fits := encodable.contents kind
  -- Only a table and a memory look at what was read before them, and only code depends on where it
  -- stands; the other parts are read by their codecs alone.
  cases kind with
  | types =>
      have reads := codec_signature.vector.reads whole.types fits position
      exact ⟨_, reads.map fun types => ({ module with types := types } : Module), rfl⟩
  | imports =>
      obtain ⟨index, count⟩ := spellsIndex_count fits.1
      have tables : ((([] : List Import).reverse ++ whole.imports).filterMap
          Import.table?).length ≤ 1 := Nat.le_of_add_right_le encodable.tables
      have memories : ((([] : List Import).reverse ++ whole.imports).filterMap
          Import.memory?).length ≤ 1 := Nat.le_of_add_right_le encodable.memories
      have entries := reads_importsOnto fits.2 tables memories count.symm
        (position + (unsignedForm whole.imports.length).length)
      exact ⟨_, (reads_unsigned32 position index).bind
        (entries.map fun imports => ({ module with imports := imports } : Module)), rfl⟩
  | functions =>
      have reads := codec_index.vector.reads whole.functions ⟨fits, fun _ _ => trivial⟩ position
      exact ⟨_, reads.map fun functions => ({ module with functions := functions } : Module), rfl⟩
  | table =>
      have alone (found : whole.table ≠ none) : module.hasTable = false := by
        rw [hasTable_eq_false_iff, imported (by decide)]
        exact ⟨Option.isNone_iff_eq_none.mp waiting, eq_nil_of_single encodable.tables found⟩
      have reads := (codec_singleton .table module.hasTable codec_tableType).reads whole.table alone
        position
      exact ⟨_, reads.map fun table => ({ module with table := table } : Module), rfl⟩
  | memory =>
      have alone (found : whole.memory ≠ none) : module.hasMemory = false := by
        rw [hasMemory_eq_false_iff, imported (by decide)]
        exact ⟨Option.isNone_iff_eq_none.mp waiting, eq_nil_of_single encodable.memories found⟩
      have reads := (codec_singleton .memory module.hasMemory codec_limits).reads whole.memory alone
        position
      exact ⟨_, reads.map fun memory => ({ module with memory := memory } : Module), rfl⟩
  | globals =>
      have reads := codec_global.vector.reads whole.globals ⟨fits, fun _ _ => trivial⟩ position
      exact ⟨_, reads.map fun globals => ({ module with globals := globals } : Module), rfl⟩
  | exports =>
      have reads := codec_export.vector.reads whole.exports fits position
      exact ⟨_, reads.map fun exports => ({ module with exports := exports } : Module), rfl⟩
  | start =>
      obtain ⟨index, found⟩ := Option.isSome_iff_exists.mp (Option.isNone_eq_false_iff.mp filled)
      have encoded : encodePayload whole .start = encodeIndex index := by
        rw [encodePayload, found]
        exact List.append_nil _
      rw [encoded]
      have reads := codec_index.reads index trivial position
      exact ⟨_, reads.map fun start => ({ module with start := some start } : Module), found⟩
  | elements =>
      have reads := codec_elementSegment.vector.reads whole.elements fits position
      exact ⟨_, reads.map fun elements => ({ module with elements := elements } : Module), rfl⟩
  | code =>
      have count : SpellsUnsigned 32 (unsignedForm whole.bodies.length)
          (Body.allPlaced whole.codePosition whole.bodies).length := by
        rw [length_allPlaced]
        exact spellsUnsigned_count fits.1
      have entries := readsEach_codeEntry fits.2 whole.codePosition
      rw [← placed rfl] at entries count
      have reads := reads_vector count entries
      rw [placed rfl] at reads
      exact ⟨_, reads.map fun bodies => ({ module with bodies := bodies } : Module), rfl⟩
  | data =>
      have reads := codec_dataSegment.vector.reads whole.data fits position
      exact ⟨_, reads.map fun data => ({ module with data := data } : Module), rfl⟩

/-- **What is read of a part can be encoded**, in no more bytes. -/
theorem admits_payload (kind : SectionKind) {module : Module} (single : IsSingle module)
    (waiting : ∀ other : SectionKind, kind.id ≤ other.id → other.isEmpty module = true) :
    Admits (payload kind module) fun bytes result => kind.Fits result ∧
      (encodePayload result kind).length ≤ bytes.length ∧ IsSingle result := by
  obtain ⟨tables, memories⟩ := single
  -- Imports, a table and a memory count against the limit of one; the other parts leave it alone.
  cases kind with
  | types =>
      exact codec_signature.vector.admits.map _ fun _ _ holds =>
        ⟨holds.1, holds.2, tables, memories⟩
  | imports =>
      refine admits_unsigned32.bind fun count front spells => ?_
      refine (admits_importsOnto count.toNat [] (Nat.zero_le 1) (Nat.zero_le 1)).map _ ?_
      rintro back imports ⟨entries, same, length, names, short, importedTables, importedMemories⟩
      obtain rfl : imports = entries := same
      have isCount : IsCount imports.length := length.trans_lt spells.fits
      have least := least_unsignedForm spells
      have noTable := Option.isNone_iff_eq_none.mp (waiting .table (by decide))
      have noMemory := Option.isNone_iff_eq_none.mp (waiting .memory (by decide))
      rw [← length] at least
      refine ⟨⟨isCount, names⟩, ?_, ?_, ?_⟩
      · exact length_append_le least short
      · exact single_of_alone importedTables fun found => absurd noTable found
      · exact single_of_alone importedMemories fun found => absurd noMemory found
  | functions =>
      exact codec_index.vector.admits.map _ fun _ _ holds =>
        ⟨holds.1.1, holds.2, tables, memories⟩
  | table =>
      refine (codec_singleton .table module.hasTable codec_tableType).admits.map _ ?_
      intro bytes found holds
      refine ⟨trivial, holds.2, single_of_alone (Nat.le_of_add_right_le tables) ?_, memories⟩
      exact fun some => (hasTable_eq_false_iff.mp (holds.1 some)).2
  | memory =>
      refine (codec_singleton .memory module.hasMemory codec_limits).admits.map _ ?_
      intro bytes found holds
      refine ⟨trivial, holds.2, tables, single_of_alone (Nat.le_of_add_right_le memories) ?_⟩
      exact fun some => (hasMemory_eq_false_iff.mp (holds.1 some)).2
  | globals =>
      exact codec_global.vector.admits.map _ fun _ _ holds =>
        ⟨holds.1.1, holds.2, tables, memories⟩
  | exports =>
      exact codec_export.vector.admits.map _ fun _ _ holds =>
        ⟨holds.1, holds.2, tables, memories⟩
  | start =>
      refine codec_index.admits.map _ fun bytes index holds => ⟨trivial, ?_, tables, memories⟩
      show (encodeIndex index ++ []).length ≤ bytes.length
      rw [List.append_nil]
      exact holds.2
  | elements =>
      exact codec_elementSegment.vector.admits.map _ fun _ _ holds =>
        ⟨holds.1, holds.2, tables, memories⟩
  | code =>
      refine (admits_vector admits_codeEntry).map _ fun bytes bodies vector => ?_
      obtain ⟨fits, short⟩ := least_vector (fun _ _ holds => holds) vector
      exact ⟨fits, short, tables, memories⟩
  | data =>
      exact codec_dataSegment.vector.admits.map _ fun _ _ holds =>
        ⟨holds.1, holds.2, tables, memories⟩

/-! ## Sections with their numbers -/

/-- A number of a single byte is read as it is. -/
theorem reads_number {id : UInt8} (small : id.toNat < 128) (position : Nat) :
    Reads unsigned7 position [id] id := by
  have spells := spellsUnsigned_unsignedForm (by decide) (show id.toNat < 2 ^ 7 from small)
  rw [unsignedForm_of_lt small, Nat.toUInt8_eq, UInt8.ofNat_toNat] at spells
  have reads := (reads_unsigned (by decide) position spells).map Nat.toUInt8
  rwa [Nat.toUInt8_eq, UInt8.ofNat_toNat] at reads

/-- The number of a section is one byte. -/
theorem reads_id (position : Nat) (kind : SectionKind) :
    Reads unsigned7 position [kind.id] kind.id :=
  reads_number (by cases kind <;> decide) position

/-- The kind that has a number has that number. -/
theorem SectionKind.id_of_ofId? {id : UInt8} (found : ofId? id = some kind) : kind.id = id := by
  unfold ofId? at found
  split at found
  · cases found
  · next counted =>
      obtain ⟨inside, equation⟩ := List.getElem?_eq_some_iff.mp found
      have index : all.idxOf kind = id.toNat - 1 := by
        rw [← equation]
        exact nodup_all.idxOf_getElem _ inside
      have positive : id.toNat ≠ 0 := fun zero => counted (UInt8.toNat_inj.mp zero)
      rw [SectionKind.id, index, Nat.sub_add_cancel (Nat.pos_of_ne_zero positive), Nat.toUInt8_eq,
        UInt8.ofNat_toNat]

/-- **A section is read** if its number comes after the last one and its contents are read. -/
theorem reads_nextSection {last : UInt8} (after : last < kind.id) {module result : Module}
    {contents : List UInt8} (count : IsCount contents.length) {position : Nat}
    (reads : Reads (payload kind module)
      (position + 1 + (unsignedForm contents.length).length) contents result) :
    Reads (nextSection last module) position (kind.id :: encodeSized contents)
      (kind.id, result) := by
  obtain ⟨index, whole⟩ := spellsIndex_count count
  have inside := reads []
  rw [List.append_nil] at inside
  refine .afterPosition ((reads_id position kind).bind ((reads_unsigned32 _ index).bind
    ((reads_window _ whole.symm).thenNothing ?_)))
  rw [if_neg kind.id_ne_customId, SectionKind.ofId?_id]
  have closed : (do
      let module ← payload kind module
      expectEnd (.sectionTooLong · kind.id)
      return module) ⟨position + 1 + (unsignedForm contents.length).length, contents⟩ =
      .ok result ⟨_, []⟩ := Stateful.bind_of_ok _ inside
  exact Reads.refuse (UInt8.not_le.mpr after) ((reads_within closed _).map _)

/-- What sections read so far have made of a module. -/
structure Reached (last : UInt8) (module : Module) : Prop where
  /-- There are no two tables or memories. -/
  single : IsSingle module
  /-- Everything can be encoded. -/
  contents : ∀ kind : SectionKind, kind.Fits module
  /-- The lengths of the sections can be written down. -/
  payloads : ∀ kind, IsCount (encodePayload module kind).length
  /-- Later sections have added nothing yet. -/
  waiting : ∀ kind : SectionKind, last < kind.id → kind.isEmpty module = true

/-- **What a section adds can be encoded.** -/
theorem admits_nextSection {last : UInt8} {module : Module} (reached : Reached last module) :
    Admits (nextSection last module) fun _ result => Reached result.1 result.2 := by
  have identified : Admits unsigned7 fun _ _ => True :=
    (admits_unsigned 7).map _ fun _ _ _ => trivial
  refine .afterPosition fun offset => identified.bind fun id first _ => ?_
  refine admits_unsigned32.bind fun length second spells => ?_
  refine (admits_window length.toNat).bind ?_
  rintro window third ⟨size, rest⟩
  split
  · exact admits_pure reached
  split
  · exact admits_throw _
  · next kind found =>
      obtain rfl := SectionKind.id_of_ofId? found
      refine .refuse fun ordered => admits_within.map _ ?_
      rintro _ result ⟨-, later, equation⟩
      obtain ⟨part, middle, inside, equation⟩ := Stateful.bind_eq_ok.mp equation
      obtain ⟨_, last', -, equation⟩ := Stateful.bind_eq_ok.mp equation
      cases equation
      have after := UInt8.not_le.mp ordered
      have waiting (other : SectionKind) (later : kind.id ≤ other.id) :=
        reached.waiting other (UInt8.lt_of_lt_of_le after later)
      obtain ⟨bytes, split, -, fits, short, single⟩ :=
        admits_payload kind reached.single waiting _ _ _ inside
      have others := SectionKind.onlyAdds_of_payload inside
      have within : bytes.length ≤ length.toNat := by
        rw [← size, ← rest, split, List.length_append]
        exact Nat.le_add_right _ _
      -- The part of this section is bounded by its own bytes, the other parts are as they were.
      refine ⟨single, fun other => ?_, fun other => ?_, fun other beyond => ?_⟩
      · by_cases same : other = kind
        · exact same ▸ fits
        · exact (SectionKind.fits_congr (others other same)).mp (reached.contents other)
      · by_cases same : other = kind
        · rw [same]
          exact (short.trans within).trans_lt length.toNat_lt
        · rw [← SectionKind.encodePayload_congr (others other same)]
          exact reached.payloads other
      · have different : other ≠ kind := fun same => UInt8.lt_irrefl _ (same ▸ beyond)
        rw [← SectionKind.isEmpty_congr (others other different)]
        exact reached.waiting other (UInt8.lt_trans after beyond)

end WasmCompiler.Binary
