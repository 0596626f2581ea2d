import WasmCompiler.Proofs.Payloads

/-! # Modules and their binary form

Every module within the limits of the format is read from its binary form, with the offsets of its
opcodes there, and every module that is read is within these limits.

* **`exists_sections`** — the sections of a module are read one after the other;
* **`reached_of_sections`** — whatever sections are read, the module can be encoded;
* **`opcodesAt_placed`** — the offsets of its bodies are the positions of their opcodes;
* **`module_round_trip`** — all of this for whole modules. -/

namespace WasmCompiler.Binary

open Decoder Varint

/-! ## Runs of sections -/

/-- No more sections are read at the end of the window. -/
theorem sections_nil (fuel : Nat) (last : UInt8) (module : Module) (position : Nat) :
    sections fuel last module ⟨position, []⟩ = .ok module ⟨position, []⟩ := by
  cases fuel <;> rfl

/-- A section is read and then those after it. -/
theorem sections_of_nextSection {last after : UInt8} {module result : Module}
    {cursor later : Cursor} (more : cursor.rest ≠ [])
    (equation : nextSection last module cursor = .ok (after, result) later) (fuel : Nat) :
    sections (fuel + 1) last module cursor = sections fuel after result later := by
  have filled : ¬cursor.rest.isEmpty = true := fun empty => more (List.isEmpty_iff.mp empty)
  rw [sections, Stateful.bind_of_ok _ (Stateful.get_apply cursor), if_neg filled,
    Stateful.bind_of_ok _ equation]

/-- How far a module has been read if the sections of some kinds are still to come. -/
structure Progress (whole module : Module) (kinds : List SectionKind) : Prop where
  /-- What these sections add is not there yet. -/
  waiting : ∀ kind ∈ kinds, kind.isEmpty module = true
  /-- Everything else is there. -/
  done : ∀ kind, kind ∉ kinds → SectionKind.Same whole.placed module kind

variable {whole module : Module} {kind : SectionKind} {kinds : List SectionKind}

/-- Placing the opcodes of a module adds nothing to it. -/
theorem isEmpty_placed (whole : Module) (kind : SectionKind) :
    kind.isEmpty whole.placed = kind.isEmpty whole := by
  cases kind with
  | code =>
      show (Body.allPlaced whole.codePosition whole.bodies).isEmpty = whole.bodies.isEmpty
      cases whole.bodies <;> rfl
  | types | imports | functions | table | memory | globals | exports | start | elements | data =>
      rfl

/-- A section that would be empty is not missed. -/
theorem Progress.skip (progress : Progress whole module (kind :: kinds))
    (empty : kind.isEmpty whole = true) : Progress whole module kinds where
  waiting other member := progress.waiting other (List.mem_cons_of_mem kind member)
  done other missing := by
    by_cases same : other = kind
    · subst same
      exact SectionKind.same_of_isEmpty ((isEmpty_placed whole other).trans empty)
        (progress.waiting other List.mem_cons_self)
    · exact progress.done other (List.not_mem_cons_of_ne_of_not_mem same missing)

/-- A section brings its part. -/
theorem Progress.add {result : Module} (progress : Progress whole module (kind :: kinds))
    (distinct : kind ∉ kinds) (part : SectionKind.Same whole.placed result kind)
    (others : SectionKind.OnlyAdds kind module result) : Progress whole result kinds where
  waiting other member := by
    have different : other ≠ kind := fun same => distinct (same ▸ member)
    rw [← SectionKind.isEmpty_congr (others other different)]
    exact progress.waiting other (List.mem_cons_of_mem kind member)
  done other missing := by
    by_cases same : other = kind
    · exact same ▸ part
    · have kept := progress.done other (List.not_mem_cons_of_ne_of_not_mem same missing)
      exact SectionKind.same_trans kept (others other same)

/-- The sections before that of the code are those before its kind. -/
theorem takeWhile_all {before : List SectionKind}
    (split : before ++ kind :: kinds = SectionKind.all) :
    SectionKind.all.takeWhile (· ≠ kind) = before := by
  have distinct := SectionKind.nodup_all
  rw [← split, List.nodup_append] at distinct
  rw [← split, List.takeWhile_append_of_pos, List.takeWhile_cons_of_neg, List.append_nil]
  · simp
  · intro other member
    exact decide_eq_true (distinct.2.2 other member kind List.mem_cons_self)

/-- **The sections of a module are read** one after the other. -/
theorem exists_sections (encodable : Encodable whole) {before : List SectionKind}
    (split : before ++ kinds = SectionKind.all) (progress : Progress whole module kinds)
    {last : UInt8} (after : ∀ kind ∈ kinds, last < kind.id) {fuel : Nat}
    (enough : (kinds.flatMap (encodeSection whole)).length ≤ fuel) {position : Nat}
    (start : position = header.length + (before.flatMap (encodeSection whole)).length) :
    ∃ later, sections fuel last module ⟨position, kinds.flatMap (encodeSection whole)⟩ =
      .ok whole.placed later := by
  induction kinds generalizing before module last fuel position with
  | nil =>
      have same : module = whole.placed :=
        (SectionKind.eq_of_same fun kind => progress.done kind (List.not_mem_nil)).symm
      rw [same]
      exact ⟨_, sections_nil ..⟩
  | cons kind kinds kindsInduction =>
      have ascending := SectionKind.id_strictMono
      rw [← split, List.pairwise_append, List.pairwise_cons] at ascending
      obtain ⟨-, ⟨beyond, -⟩, -⟩ := ascending
      have onward : (before ++ [kind]) ++ kinds = SectionKind.all := by
        rw [List.append_assoc]
        exact split
      rw [List.flatMap_cons] at enough ⊢
      -- An empty section is left out, and the module has nothing in its place already.
      cases empty : kind.isEmpty whole with
      | true =>
          have nothing : encodeSection whole kind = [] := if_pos empty
          rw [nothing, List.nil_append] at enough ⊢
          refine kindsInduction onward (progress.skip empty)
            (fun other member => after other (List.mem_cons_of_mem kind member)) enough ?_
          rw [start, List.flatMap_append, List.flatMap_singleton, nothing, List.append_nil]
      | false =>
          have something : encodeSection whole kind =
              kind.id :: encodeSized (encodePayload whole kind) :=
            if_neg (Bool.not_eq_true _ ▸ empty)
          let contents := position + 1 + (unsignedForm (encodePayload whole kind).length).length
          have imported (earlier : SectionKind.imports.id < kind.id) :
              module.imports = whole.imports := by
            refine (progress.done .imports fun member => ?_).symm
            rcases List.mem_cons.mp member with same | member
            · exact UInt8.lt_irrefl _ (same ▸ earlier)
            · exact UInt8.lt_irrefl _ (UInt8.lt_trans earlier (beyond _ member))
          -- What precedes the code section is what precedes its kind in the order of all kinds.
          have placed (isCode : kind = .code) :
              contents + (unsignedForm whole.bodies.length).length = whole.codePosition := by
            subst isCode
            rw [Module.codePosition, takeWhile_all split, ← start]
          obtain ⟨result, reads, part⟩ := exists_payload encodable empty
            (progress.waiting kind List.mem_cons_self) imported placed
          have step := reads_nextSection (after kind List.mem_cons_self)
            (encodable.payloads kind) reads (kinds.flatMap (encodeSection whole))
          have others := SectionKind.onlyAdds_of_payload (reads [])
          have distinct : kind ∉ kinds := fun member => UInt8.lt_irrefl _ (beyond kind member)
          rw [something] at enough ⊢
          rw [List.length_append, List.length_cons] at enough
          obtain ⟨fuel, rfl⟩ : ∃ less, fuel = less + 1 := ⟨fuel - 1, by omega⟩
          rw [sections_of_nextSection (List.cons_ne_nil _ _) step]
          refine kindsInduction onward (progress.add distinct part others) beyond (by omega) ?_
          rw [start, List.flatMap_append, List.flatMap_singleton, something, List.length_append,
            Nat.add_assoc]

/-- **Whatever sections are read, the module can be encoded.** -/
theorem reached_of_sections {fuel : Nat} {last : UInt8} {result : Module} {cursor later : Cursor}
    (reached : Reached last module)
    (equation : sections fuel last module cursor = .ok result later) :
    ∃ last, Reached last result := by
  induction fuel generalizing last module cursor with
  | zero =>
      cases equation
      exact ⟨last, reached⟩
  | succ fuel fuelInduction =>
      rw [sections, Stateful.bind_of_ok _ (Stateful.get_apply cursor)] at equation
      split at equation
      · cases equation
        exact ⟨last, reached⟩
      · obtain ⟨⟨after, more⟩, middle, step, equation⟩ := Stateful.bind_eq_ok.mp equation
        obtain ⟨-, -, -, further⟩ := admits_nextSection reached _ _ _ step
        exact fuelInduction further equation

/-! ## Whole modules -/

/-- A field of the header is read where it stands. -/
theorem reads_headerField (expected : List UInt8) (position : Nat) :
    Reads (headerField expected) position expected () := by
  intro rest
  simp [headerField, Cursor.advance, Cursor.remaining]

/-- What is read as one is this field. -/
theorem admits_headerField (expected : List UInt8) :
    Admits (headerField expected) fun bytes _ => bytes = expected := by
  intro cursor later value equation
  unfold headerField at equation
  split at equation
  · next found =>
      cases equation
      have length : expected.length ≤ cursor.rest.length := by
        rw [← found, List.length_take]
        exact Nat.min_le_right _ _
      have split := List.take_append_drop expected.length cursor.rest
      rw [found] at split
      exact ⟨expected, split.symm, congrArg _ (Nat.min_eq_left length), rfl⟩
  · cases equation

/-- A module that is read is a header and sections. -/
theorem sections_of_decodeModule {bytes : List UInt8} (decoded : decodeModule bytes = .ok module) :
    ∃ cursor later, bytes = header ++ cursor.rest ∧
      sections cursor.remaining 0 {} cursor = .ok module later := by
  unfold decodeModule outcome at decoded
  split at decoded
  · next result later equation =>
      cases decoded
      obtain ⟨_, middle, first, equation⟩ := Stateful.bind_eq_ok.mp equation
      obtain ⟨_, cursor, second, equation⟩ := Stateful.bind_eq_ok.mp equation
      obtain ⟨_, front, -, rfl⟩ := admits_headerField magic _ _ _ first
      obtain ⟨_, back, -, rfl⟩ := admits_headerField versionBytes _ _ _ second
      refine ⟨cursor, later, ?_, equation⟩
      rw [header, List.append_assoc, ← back]
      exact front
  · cases decoded

/-- The outcome of a decoder is what it reads. -/
theorem outcome_eq_ok {α : Type} {decoder : Decoder α} {cursor : Cursor} {value : α} :
    decoder.outcome cursor = .ok value ↔ ∃ later, decoder cursor = .ok value later := by
  rw [outcome]
  cases decoder cursor <;> simp

/-- It is an error where the decoder fails. -/
theorem outcome_eq_error {α : Type} {decoder : Decoder α} {cursor : Cursor} {error : Error} :
    decoder.outcome cursor = .error error ↔ ∃ later, decoder cursor = .error error later := by
  rw [outcome]
  cases decoder cursor <;> simp

/-- After the header, a module is read section by section. -/
theorem decodeModule_header (body : List UInt8) :
    decodeModule (header ++ body) =
      (sections body.length 0 {}).outcome ⟨header.length, body⟩ := by
  have first : headerField magic (.ofBytes (magic ++ (versionBytes ++ body))) = _ :=
    reads_headerField magic 0 (versionBytes ++ body)
  have second : headerField versionBytes ⟨0 + magic.length, versionBytes ++ body⟩ = _ :=
    reads_headerField versionBytes (0 + magic.length) body
  rw [decodeModule, outcome, header, List.append_assoc, Decoder.module, Stateful.bind_of_ok _ first,
    Stateful.bind_of_ok _ second]
  rfl

/-- **The binary form of a module is read** as the module with the offsets that it has there. -/
theorem decodeModule_encodeModule (encodable : Encodable whole) :
    decodeModule (encodeModule whole) = .ok whole.placed := by
  have progress : Progress whole {} SectionKind.all :=
    ⟨fun kind _ => by cases kind <;> rfl, fun kind missing => absurd kind.mem_all missing⟩
  have after : ∀ kind ∈ SectionKind.all, (0 : UInt8) < kind.id := by decide
  obtain ⟨later, equation⟩ := exists_sections encodable (List.nil_append _) progress after
    (Nat.le_refl _) (Eq.refl header.length)
  rw [encodeModule, decodeModule_header]
  exact outcome_eq_ok.mpr ⟨later, equation⟩

/-- **Every module that is read can be encoded.** -/
theorem encodable_of_decodeModule {bytes : List UInt8} (decoded : decodeModule bytes = .ok module) :
    Encodable module := by
  -- A module with nothing in it can be written, and each section adds what can be written.
  have empty : Reached 0 ({} : Module) := by
    refine ⟨⟨Nat.zero_le 1, Nat.zero_le 1⟩, fun kind => ?_, fun kind => ?_, fun kind _ => ?_⟩
    · have none : IsCount 0 := Nat.pos_of_ne_zero (by decide)
      cases kind with
      | functions | globals => exact none
      | table | memory | start => trivial
      | types | imports | exports | elements | code | data => exact ⟨none, List.forall_mem_nil _⟩
    · have short : IsCount (unsignedForm 0 ++ []).length := by
        rw [unsignedForm_of_lt (by decide)]
        show 1 < 2 ^ 32
        decide
      cases kind with
      | start => exact Nat.pos_of_ne_zero (by decide)
      | types | imports | functions | table | memory | globals | exports | elements | code | data =>
          exact short
    · cases kind <;> rfl
  obtain ⟨cursor, later, -, equation⟩ := sections_of_decodeModule decoded
  obtain ⟨last, reached⟩ := reached_of_sections empty equation
  exact ⟨reached.single.tables, reached.single.memories, reached.contents, reached.payloads⟩

/-! ## Positions of opcodes -/

/-- A place among operators is a place among their encodings. -/
theorem exists_position {operators : List Operator} {place : Nat} {operator : Operator}
    (found : operators[place]? = some operator) (position : Nat) :
    ∃ before after,
      operators.flatMap encodeOperator = before ++ (encodeOperator operator ++ after) ∧
        (Operator.positions position operators)[place]? = some (position + before.length) := by
  induction operators generalizing place position with
  | nil => cases found
  | cons first operators operatorsInduction =>
      cases place with
      | zero =>
          cases found
          exact ⟨[], _, rfl, rfl⟩
      | succ place =>
          obtain ⟨before, after, split, offset⟩ :=
            operatorsInduction found (position + (encodeOperator first).length)
          refine ⟨encodeOperator first ++ before, after, ?_, ?_⟩
          · rw [List.flatMap_cons, split, List.append_assoc]
          · rw [List.length_append, ← Nat.add_assoc]
            exact offset

/-- A placed body is one that is encoded at its place. -/
theorem exists_entry {bodies : List Body} {body : Body} {position : Nat}
    (member : body ∈ Body.allPlaced position bodies) :
    ∃ (original : Body) (before after : List UInt8),
      body = original.placed (position + before.length) ∧
        (bodies.flatMap fun body => encodeSized (encodeBody body)) =
          before ++ (encodeBody original ++ after) := by
  induction bodies generalizing position with
  | nil => cases member
  | cons first bodies bodiesInduction =>
      rcases List.mem_cons.mp member with rfl | member
      · refine ⟨first, unsignedForm (encodeBody first).length,
          bodies.flatMap fun body => encodeSized (encodeBody body), rfl, ?_⟩
        rw [List.flatMap_cons, encodeSized, List.append_assoc]
      · obtain ⟨original, before, after, placed, split⟩ := bodiesInduction member
        refine ⟨original, encodeSized (encodeBody first) ++ before, after, ?_, ?_⟩
        · rw [placed, List.length_append, encodeSized, List.length_append, ← Nat.add_assoc,
            ← Nat.add_assoc]
        · rw [List.flatMap_cons, split, List.append_assoc]

/-- The entries of the code section stand at its position. -/
theorem exists_code_section (whole : Module) (filled : whole.bodies ≠ []) :
    ∃ before after, before.length = whole.codePosition ∧ encodeModule whole =
      before ++ ((whole.bodies.flatMap fun body => encodeSized (encodeBody body)) ++ after) := by
  have something : encodeSection whole .code =
      SectionKind.code.id :: encodeSized (encodePayload whole .code) :=
    if_neg fun empty => filled (List.isEmpty_iff.mp empty)
  have split : SectionKind.all = SectionKind.all.takeWhile (· ≠ .code) ++ [.code, .data] := by
    decide
  have sections : SectionKind.all.flatMap (encodeSection whole) =
      (SectionKind.all.takeWhile (· ≠ .code)).flatMap (encodeSection whole) ++
        (encodeSection whole .code ++ encodeSection whole .data) := by
    conv_lhs => rw [split]
    rw [List.flatMap_append, List.flatMap_cons, List.flatMap_singleton]
  refine ⟨header ++ (SectionKind.all.takeWhile (· ≠ .code)).flatMap (encodeSection whole) ++
    SectionKind.code.id :: (unsignedForm (encodePayload whole .code).length ++
      unsignedForm whole.bodies.length), encodeSection whole .data, ?_, ?_⟩
  · simp only [Module.codePosition, List.length_append, List.length_cons]
    omega
  · rw [encodeModule, sections, something]
    simp only [encodeSized, encodePayload, encodeVector, List.append_assoc, List.cons_append]

/-- **The offsets of placed bodies** are the positions of their opcodes. -/
theorem opcodesAt_placed (whole : Module) :
    ∀ body ∈ whole.placed.bodies, OpcodesAt (encodeModule whole) body := by
  intro body member
  have filled : whole.bodies ≠ [] := by
    rintro none
    rw [Module.placed, none] at member
    cases member
  obtain ⟨front, back, start, encoded⟩ := exists_code_section whole filled
  obtain ⟨original, before, after, rfl, entries⟩ := exists_entry member
  refine ⟨?_, fun place operator found => ?_⟩
  · show (Operator.positions _ original.operators).toArray.size = original.instructions.size
    rw [List.size_toArray, Operator.length_positions, Body.operators, List.length_map,
      Array.length_toList]
  · obtain ⟨inner, outer, operators, offset⟩ := exists_position found
      (whole.codePosition + before.length + (encodeLocals original.locals).length)
    refine ⟨_, (List.getElem?_toArray ..).trans offset, ?_⟩
    have body : encodeBody original = encodeLocals original.locals ++
        (inner ++ (encodeOperator operator ++ outer)) := congrArg _ operators
    -- Cut the encoding at the operator: everything in front adds up to its offset.
    have bytes : encodeModule whole =
        (front ++ (before ++ (encodeLocals original.locals ++ inner))) ++
          (encodeOperator operator ++ (outer ++ (after ++ back))) := by
      rw [encoded, entries, body]
      simp only [List.append_assoc]
    have length : (front ++ (before ++ (encodeLocals original.locals ++ inner))).length =
        whole.codePosition + before.length + (encodeLocals original.locals).length +
          inner.length := by
      simp only [List.length_append, start, Nat.add_assoc]
    rw [bytes, ← length, List.drop_left]
    exact List.prefix_append _ _

/-! ## The round trip -/

/-- Placing opcodes changes nothing else. -/
theorem withoutOffsets_placed (whole : Module) :
    whole.placed.withoutOffsets = whole.withoutOffsets := by
  have bodies (position : Nat) (bodies : List Body) :
      (Body.allPlaced position bodies).map Body.withoutOffsets =
        bodies.map Body.withoutOffsets := by
    induction bodies generalizing position with
    | nil => rfl
    | cons body bodies bodiesInduction =>
        exact congrArg (body.withoutOffsets :: ·) (bodiesInduction _)
  rw [Module.withoutOffsets, Module.withoutOffsets, Module.placed, bodies]

/-- **A module and its binary form determine each other** up to the offsets of the opcodes. What has
a binary form is read from it, and the offsets are then the positions of the opcodes in it. Whatever
bytes a module is read from, they start with the header, the module has a binary form, and what is
read from that form differs in the offsets alone. -/
theorem module_round_trip :
    (∀ module : Module, Encodable module →
      decodeModule (encodeModule module) = .ok module.placed ∧
        module.placed.withoutOffsets = module.withoutOffsets ∧
        ∀ body ∈ module.placed.bodies, OpcodesAt (encodeModule module) body) ∧
    ∀ (bytes : List UInt8) (module : Module), decodeModule bytes = .ok module →
      header <+: bytes ∧ Encodable module ∧
        ∃ again, decodeModule (encodeModule module) = .ok again ∧
          again.withoutOffsets = module.withoutOffsets := by
  constructor
  · intro module encodable
    exact ⟨decodeModule_encodeModule encodable, withoutOffsets_placed module,
      opcodesAt_placed module⟩
  · intro bytes module decoded
    have encodable := encodable_of_decodeModule decoded
    obtain ⟨cursor, -, rfl, -⟩ := sections_of_decodeModule decoded
    exact ⟨List.prefix_append header cursor.rest, encodable, module.placed,
      decodeModule_encodeModule encodable, withoutOffsets_placed module⟩

/-- Bytes with more than one spelling that is not the shortest: the initial size of the memory, and
two groups of locals of one type. -/
def paddedBytes : List UInt8 :=
  [0x00, 0x61, 0x73, 0x6d, 0x01, 0x00, 0x00, 0x00,
    0x01, 0x06, 0x01, 0x60, 0x01, 0x7f, 0x01, 0x7f,
    0x03, 0x02, 0x01, 0x00,
    0x05, 0x04, 0x01, 0x00, 0x81, 0x00,
    0x0a, 0x0d, 0x01, 0x0b, 0x02, 0x01, 0x7f, 0x01, 0x7f, 0x02, 0x7f, 0x20, 0x00, 0x0b, 0x0b]

/-- The module of these bytes. -/
def paddedModule : Module where
  types := [⟨[.i32], [.i32]⟩]
  memory := some ⟨1, none⟩
  functions := [0]
  bodies := [{
    locals := [.i32, .i32]
    instructions := #[.block (some .i32) 0 (some 2), .plain (.getLocal 0), .finish (some 0),
      .finish none]
    offsets := #[35, 37, 39, 40]
    labelCount := 1 }]

/-- Padded bytes are read, and what they say is read again from its binary form. -/
theorem module_round_trip_padded :
    decodeModule paddedBytes = .ok paddedModule ∧ Encodable paddedModule ∧
      decodeModule (encodeModule paddedModule) = .ok paddedModule.placed ∧
      paddedModule.placed.withoutOffsets = paddedModule.withoutOffsets := by
  have decoded : decodeModule paddedBytes = .ok paddedModule := by decide +kernel
  have encodable := (module_round_trip.2 _ _ decoded).2.1
  have again := module_round_trip.1 _ encodable
  exact ⟨decoded, encodable, again.1, again.2.1⟩

end WasmCompiler.Binary
