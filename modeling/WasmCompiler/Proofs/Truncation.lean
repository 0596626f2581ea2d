import Mathlib.Data.List.Infix
import WasmCompiler.Proofs.RoundTrip

/-! # Modules that are cut off

A module that is cut off anywhere is told from a whole one. Where a section ends, the sections so
far are a module, which lacks the parts of the others; in the header, and inside a section, reading
fails for want of bytes.

* **`Decoder.Exact`** — a decoder reads bytes whatever follows them, and fails at the end of any
  front of them;
* **`RawSection`** — a section as it stands in a module, with its number, its length and its
  payload;
* **`exact_nextSection`**, **`admits_rawSection`** — reading a section is exact, and what is read is
  one;
* **`truncation_detected`** — what becomes of every front of a module. -/

namespace WasmCompiler

namespace Varint

/-- Bytes of a numeral before the last one announce another. -/
theorem IsNumeral.set_of_append {front back : List UInt8} (numeral : IsNumeral (front ++ back))
    (more : back ≠ []) : ∀ byte ∈ front, byte.toNat.testBit 7 = true := by
  induction front with
  | nil => exact List.forall_mem_nil _
  | cons byte front frontInduction =>
      generalize whole : byte :: front ++ back = bytes at numeral
      cases numeral with
      | last last clear =>
          -- The numeral is a single byte, so nothing is left for the back.
          obtain ⟨-, nothing⟩ := List.cons.inj whole
          exact absurd (List.append_eq_nil_iff.mp nothing).2 more
      | more first set later =>
          obtain ⟨rfl, rest⟩ := List.cons.inj whole
          subst rest
          exact List.forall_mem_cons.mpr ⟨set, frontInduction later⟩

/-- **An unsigned integer that is cut off** is missed at the end of the input. -/
theorem SpellsUnsigned.endOfInput {bits value : Nat} {front back : List UInt8}
    (width : IsWidth bits) (spells : SpellsUnsigned bits (front ++ back) value) (more : back ≠ []) :
    readUnsigned bits front = ⟨front.length, .error .endOfInput⟩ := by
  have set := spells.isNumeral.set_of_append more
  have fewer : front.length < (front ++ back).length := by
    rw [List.length_append]
    exact Nat.lt_add_of_pos_right (List.length_pos_of_ne_nil more)
  exact readUnsigned_of_eq
    (read?_endOfInput width _ set (Nat.lt_of_lt_of_le fewer spells.short))

end Varint

namespace Binary

open Stateful Varint

namespace Decoder

variable {α β : Type}

/-! ## Decoders that miss what is cut off -/

/-- **Whether a decoder misses bytes at a position** that are cut off, however few are missing. -/
def Misses (decoder : Decoder α) (position : Nat) (bytes : List UInt8) : Prop :=
  ∀ front back, bytes = front ++ back → back ≠ [] →
    ∃ offset later, decoder ⟨position, front⟩ = .error (.unexpectedEnd offset) later

/-- **Whether a decoder reads exactly the bytes that it takes**: whatever follows them, and not if
they are cut off. -/
def Exact (decoder : Decoder α) : Prop :=
  ∀ cursor later value, decoder cursor = .ok value later →
    ∃ bytes, cursor.rest = bytes ++ later.rest ∧ Reads decoder cursor.position bytes value ∧
      Misses decoder cursor.position bytes

variable {decoder : Decoder α}

/-- A decoder that leaves the cursor as it is takes no bytes, so none can be cut off. -/
theorem exact_of_stays (stays : ∀ cursor later value, decoder cursor = .ok value later →
      later = cursor ∧
        ∀ rest, decoder ⟨cursor.position, rest⟩ = .ok value ⟨cursor.position, rest⟩) :
    Exact decoder := by
  intro cursor later value equation
  obtain ⟨rfl, anywhere⟩ := stays cursor later value equation
  refine ⟨[], rfl, anywhere, fun front back split more => ?_⟩
  exact absurd (List.append_eq_nil_iff.mp split.symm).2 more

/-- Giving a value reads no bytes. -/
theorem exact_pure (value : α) : Exact (pure value) :=
  exact_of_stays fun cursor later result equation => by
    cases equation
    exact ⟨rfl, fun _ => rfl⟩

/-- Failing takes none. -/
theorem exact_throw (error : Error) : Exact (throw error : Decoder α) :=
  fun _ _ _ => nofun

/-- The position is known without reading. -/
theorem exact_position : Exact position :=
  exact_of_stays fun cursor later result equation => by
    cases equation
    exact ⟨rfl, fun _ => rfl⟩

/-- A window of its own is read without a look at the cursor. -/
theorem exact_within (window : Cursor) (inside : Decoder α) : Exact (within window inside) :=
  exact_of_stays fun cursor later value equation => by
    unfold within at equation
    split at equation
    · next reads =>
        cases equation
        exact ⟨rfl, reads_within reads cursor.position⟩
    · cases equation

/-- **A sequence of exact decoders is exact.** -/
theorem Exact.bind {first : Decoder β} {second : β → Decoder α} (exact : Exact first)
    (onward : ∀ value, Exact (second value)) : Exact (first >>= second) := by
  intro cursor last result equation
  obtain ⟨value, middle, starts, follows⟩ := bind_eq_ok.mp equation
  obtain ⟨front, split, reads, misses⟩ := exact cursor middle value starts
  obtain ⟨back, rest, readsMore, missesMore⟩ := onward value middle last result follows
  have stops : first cursor = .ok value ⟨cursor.position + front.length, middle.rest⟩ := by
    rw [← reads middle.rest, ← split]
  have place : middle.position = cursor.position + front.length :=
    congrArg Cursor.position (EStateM.Result.ok.inj (starts.symm.trans stops)).2
  rw [place] at readsMore missesMore
  refine ⟨front ++ back, by rw [split, rest, List.append_assoc], reads.bind readsMore, ?_⟩
  intro kept missing cut more
  -- The bytes are cut off in the second part, between both parts or in the first one.
  have inSecond (inner outer : List UInt8) (parts : back = inner ++ outer) (some : outer ≠ []) :
      ∃ offset later, (first >>= second) ⟨cursor.position, front ++ inner⟩ =
        .error (.unexpectedEnd offset) later := by
    obtain ⟨offset, later, fails⟩ := missesMore inner outer parts some
    exact ⟨offset, later, by rw [bind_of_ok _ (reads inner), fails]⟩
  rcases List.append_eq_append_iff.mp cut with ⟨inner, rfl, parts⟩ | ⟨inner, rfl, rfl⟩
  · exact inSecond inner missing parts more
  · by_cases none : inner = []
    · subst none
      have between := inSecond [] back rfl more
      rwa [List.append_nil, List.append_nil] at between
    · obtain ⟨offset, later, fails⟩ := misses kept inner rfl none
      exact ⟨offset, later, bind_of_error _ fails⟩

/-! ## Parts of sections -/

/-- An integer without sign that is cut off does not end. -/
theorem exact_unsigned {bits : Nat} (width : IsWidth bits) : Exact (unsigned bits) := by
  intro cursor later value equation
  obtain ⟨bytes, split, -, spells⟩ := admits_unsigned bits cursor later value equation
  refine ⟨bytes, split, reads_unsigned width cursor.position spells, ?_⟩
  rintro front back rfl more
  have ends := spells.endOfInput width more
  exact ⟨_, _, by rw [unsigned, varint, ends]⟩

/-- So it is with one of seven bits. -/
theorem exact_unsigned7 : Exact unsigned7 :=
  (exact_unsigned (by decide)).bind fun _ => exact_pure _

/-- So it is with an index. -/
theorem exact_unsigned32 : Exact unsigned32 :=
  (exact_unsigned isWidth_thirtyTwo).bind fun _ => exact_pure _

/-- A window takes all of its bytes. -/
theorem exact_window (count : Nat) : Exact (window count) := by
  intro cursor later inside equation
  unfold window at equation
  simp only at equation
  split at equation
  · next full =>
      cases equation
      refine ⟨cursor.rest.take count, (List.take_append_drop count cursor.rest).symm,
        reads_window cursor.position full, fun front back split more => ?_⟩
      have whole := congrArg List.length split
      rw [full, List.length_append] at whole
      have few : (front.take count).length ≠ count := by
        have some := List.length_pos_of_ne_nil more
        have most := List.length_take_le count front
        have least := List.length_take_le' count front
        omega
      exact ⟨_, _, if_neg few⟩
  · cases equation

/-- A check that does not fail leaves the cursor as it is. -/
theorem Exact.refuse {condition : Prop} [Decidable condition] {error : Error}
    {onward : Unit → Decoder α} (exact : Exact (onward ())) :
    Exact (if condition then throw error >>= onward else onward ()) := by
  split
  · exact (exact_throw error).bind fun _ => exact
  · exact exact

end Decoder

/-! ## Sections as they stand in a module -/

/-- A section as it stands in a module. -/
structure RawSection where
  /-- Its number. -/
  id : UInt8
  /-- The numeral of its length. -/
  size : List UInt8
  /-- What it holds. -/
  payload : List UInt8

namespace RawSection

/-- The bytes of a section. -/
def bytes (part : RawSection) : List UInt8 :=
  part.id :: (part.size ++ part.payload)

/-- **Whether the number and the length of a section are written as the format says.** -/
structure IsSized (part : RawSection) : Prop where
  /-- The number is one byte of a numeral. -/
  id : part.id.toNat < 128
  /-- The length is that of what it holds. -/
  size : SpellsUnsigned 32 part.size part.payload.length

/-- **What a section makes of a module**, after a section of the last number that counts in the
order: nothing if it is passed over, or else its part is added, and its number is greater. -/
inductive Adds (part : RawSection) (last : UInt8) (module : Module) : UInt8 × Module → Prop where
  /-- The section is passed over. -/
  | custom (passed : part.id = SectionKind.customId) : Adds part last module (last, module)
  /-- The section adds its part. -/
  | kind {kind : SectionKind} {result : Module} (isKind : part.id = kind.id)
      (after : last < kind.id) (adds : kind.OnlyAdds module result) :
      Adds part last module (kind.id, result)

end RawSection

namespace Decoder

/-- **Reading a section is exact.** -/
theorem exact_nextSection (last : UInt8) (module : Module) : Exact (nextSection last module) := by
  refine exact_position.bind fun offset => exact_unsigned7.bind fun id =>
    exact_unsigned32.bind fun length => (exact_window _).bind fun contents => ?_
  split
  · exact exact_pure _
  split
  · exact exact_throw _
  · exact .refuse ((exact_within contents _).bind fun _ => exact_pure _)

/-- **What is read as a section is one**, and adds what its kind may add. -/
theorem admits_rawSection (last : UInt8) (module : Module) :
    Admits (nextSection last module) fun bytes result =>
      ∃ part : RawSection, bytes = part.bytes ∧ part.IsSized ∧ part.Adds last module result := by
  refine .afterPosition fun offset => admits_unsigned7.bind ?_
  rintro id _ ⟨rfl, small⟩
  refine admits_unsigned32.bind fun length second spells => ?_
  refine (admits_window length.toNat).bind ?_
  rintro window third ⟨size, rest⟩
  let part : RawSection := ⟨id, second, third⟩
  have sized : part.IsSized := ⟨small, size.symm ▸ spells⟩
  split
  · next passed =>
      refine admits_pure ⟨part, ?_, sized, .custom passed⟩
      rw [List.append_nil]
      rfl
  split
  · exact admits_throw _
  · next kind found =>
      obtain rfl := SectionKind.id_of_ofId? found
      refine .refuse fun ordered => admits_within.map _ ?_
      rintro _ result ⟨rfl, later, equation⟩
      obtain ⟨part', middle, inside, equation⟩ := Stateful.bind_eq_ok.mp equation
      obtain ⟨_, last', -, equation⟩ := Stateful.bind_eq_ok.mp equation
      cases equation
      refine ⟨part, ?_, sized, .kind rfl (UInt8.not_le.mp ordered)
        (SectionKind.onlyAdds_of_payload inside)⟩
      rw [List.append_nil]
      rfl

end Decoder

namespace RawSection

variable {part : RawSection} {last after : UInt8} {module result : Module}

/-- A section that is not passed over comes after the last one, and is the last one then. -/
theorem Adds.ordered (adds : part.Adds last module (after, result))
    (counts : part.id ≠ SectionKind.customId) : last < part.id ∧ after = part.id := by
  cases adds with
  | custom passed => exact absurd passed counts
  | kind isKind ordered others => exact ⟨isKind ▸ ordered, isKind.symm⟩

/-- No section comes before the last one. -/
theorem Adds.le (adds : part.Adds last module (after, result)) : last ≤ after := by
  cases adds with
  | custom passed => exact UInt8.le_refl _
  | kind isKind ordered others => exact UInt8.le_of_lt ordered

/-- A section leaves the parts of other kinds. -/
theorem Adds.same (adds : part.Adds last module (after, result)) {kind : SectionKind}
    (other : kind.id ≠ part.id) : SectionKind.Same module result kind := by
  cases adds with
  | custom passed => exact SectionKind.same_refl module kind
  | kind isKind ordered others => exact others kind fun same => other (same ▸ isKind.symm)

end RawSection

open Decoder

/-! ## The sections of bytes -/

/-- Bytes start with at most one unsigned integer of a width. -/
theorem eq_of_spells {bits value other : Nat} {front back first second : List UInt8}
    (width : IsWidth bits) (one : SpellsUnsigned bits front value)
    (two : SpellsUnsigned bits back other) (same : front ++ first = back ++ second) :
    front = back ∧ value = other ∧ first = second := by
  have read := reads_unsigned width 0 one first
  rw [same, reads_unsigned width 0 two second] at read
  obtain ⟨equal, stops⟩ := EStateM.Result.ok.inj read
  obtain rfl : second = first := congrArg Cursor.rest stops
  exact ⟨List.append_cancel_right same, equal.symm, rfl⟩

/-- **Bytes start with at most one section.** -/
theorem RawSection.eq_of_bytes {one two : RawSection} {first second : List UInt8}
    (sized : one.IsSized) (sizedToo : two.IsSized)
    (same : one.bytes ++ first = two.bytes ++ second) : one = two ∧ first = second := by
  obtain ⟨id, size, payload⟩ := one
  obtain ⟨otherId, otherSize, otherPayload⟩ := two
  simp only [RawSection.bytes, List.cons_append, List.append_assoc] at same
  obtain ⟨rfl, rest⟩ := List.cons.inj same
  -- The numerals are the same, so as many bytes are held, and then these are the same.
  obtain ⟨rfl, length, held⟩ := eq_of_spells isWidth_thirtyTwo sized.size sizedToo.size rest
  obtain ⟨rfl, rfl⟩ := List.append_inj held length
  exact ⟨rfl, rfl⟩

/-- **Whether bytes are a header and sections** with their numbers and lengths. -/
structure IsSectioned (bytes : List UInt8) (parts : List RawSection) : Prop where
  /-- The bytes are those of the header and of the sections. -/
  split : bytes = header ++ parts.flatMap RawSection.bytes
  /-- Numbers and lengths are written as the format says. -/
  sized : ∀ part ∈ parts, part.IsSized

/-- **Bytes have at most one sequence of sections.** -/
theorem IsSectioned.unique {bytes : List UInt8} {parts others : List RawSection}
    (one : IsSectioned bytes parts) (two : IsSectioned bytes others) : parts = others := by
  have same := List.append_cancel_left (one.split.symm.trans two.split)
  have sized := one.sized
  have sizedToo := two.sized
  clear one two
  induction parts generalizing others with
  | nil =>
      cases others with
      | nil => rfl
      | cons part others => cases same
  | cons part parts partsInduction =>
      cases others with
      | nil => cases same
      | cons other others =>
          obtain ⟨first, rest⟩ := List.forall_mem_cons.mp sized
          obtain ⟨firstToo, restToo⟩ := List.forall_mem_cons.mp sizedToo
          rw [List.flatMap_cons, List.flatMap_cons] at same
          obtain ⟨rfl, later⟩ := RawSection.eq_of_bytes first firstToo same
          rw [partsInduction later rest restToo]

/-! ## Runs of sections -/

/-- **A run of sections** at a position: each is read exactly, one after the other, and adds to what
the ones before it have made of the module. -/
inductive Runs : (position : Nat) → (last : UInt8) → (module : Module) → List RawSection →
    (result : Module) → Prop where
  /-- No sections are left. -/
  | done {position : Nat} {last : UInt8} {module : Module} : Runs position last module [] module
  /-- A section and those after it. -/
  | step {position : Nat} {last after : UInt8} {module middle result : Module} {part : RawSection}
      {parts : List RawSection}
      (reads : (nextSection last module).Reads position part.bytes (after, middle))
      (misses : (nextSection last module).Misses position part.bytes)
      (sized : part.IsSized) (adds : part.Adds last module (after, middle))
      (later : Runs (position + part.bytes.length) after middle parts result) :
      Runs position last module (part :: parts) result

/-- Where no section is read, no more are read. -/
theorem sections_of_failure {last : UInt8} {module : Module} {cursor later : Cursor} {error : Error}
    (more : cursor.rest ≠ []) (fails : nextSection last module cursor = .error error later)
    (fuel : Nat) : sections (fuel + 1) last module cursor = .error error later := by
  have filled : ¬cursor.rest.isEmpty = true := fun empty => more (List.isEmpty_iff.mp empty)
  rw [sections, Stateful.bind_of_ok _ (Stateful.get_apply cursor), if_neg filled,
    Stateful.bind_of_error _ fails]

namespace Runs

variable {position : Nat} {last : UInt8} {module result : Module} {parts : List RawSection}

/-- Every section of a run has a number and a length. -/
theorem sized (runs : Runs position last module parts result) : ∀ part ∈ parts, part.IsSized := by
  induction runs with
  | done => exact List.forall_mem_nil _
  | step reads misses sized adds later laterInduction =>
      exact List.forall_mem_cons.mpr ⟨sized, laterInduction⟩

/-- **Sections of a run come after the last one before it**, unless they are passed over. -/
theorem ordered (runs : Runs position last module parts result) :
    ∀ part ∈ parts, part.id ≠ SectionKind.customId → last < part.id := by
  induction runs with
  | done => exact List.forall_mem_nil _
  | step reads misses sized adds later laterInduction =>
      refine List.forall_mem_cons.mpr ⟨fun counts => (adds.ordered counts).1, ?_⟩
      exact fun part member counts =>
        UInt8.lt_of_le_of_lt adds.le (laterInduction part member counts)

/-- **A part stays for which a run has no section.** -/
theorem same_of_absent (runs : Runs position last module parts result) {kind : SectionKind}
    (absent : kind.id ∉ parts.map RawSection.id) : SectionKind.Same module result kind := by
  induction runs with
  | done => exact SectionKind.same_refl _ kind
  | step reads misses sized adds later laterInduction =>
      obtain ⟨other, others⟩ := List.ne_and_not_mem_of_not_mem_cons absent
      exact SectionKind.same_trans (adds.same other) (laterInduction others)

/-- **The front of a run is a run**: it makes the parts of its own sections, and leaves the others.
-/
theorem front (runs : Runs position last module parts result) {before : List RawSection}
    (isFront : before <+: parts) :
    ∃ found, Runs position last module before found ∧
      ∀ kind : SectionKind,
        SectionKind.Same (if kind.id ∈ before.map RawSection.id then result else module) found
          kind := by
  induction runs generalizing before with
  | done =>
      rw [List.prefix_nil.mp isFront]
      exact ⟨_, .done, SectionKind.same_refl _⟩
  | @step position last after module middle result part parts reads misses sized adds later
      laterInduction =>
      cases before with
      | nil => exact ⟨module, .done, SectionKind.same_refl _⟩
      | cons first before =>
          obtain ⟨rfl, onward⟩ := List.cons_prefix_cons.mp isFront
          obtain ⟨found, read, agrees⟩ := laterInduction onward
          refine ⟨found, .step reads misses sized adds read, fun kind => ?_⟩
          have same := agrees kind
          rw [List.map_cons]
          by_cases further : kind.id ∈ before.map RawSection.id
          · rw [if_pos further] at same
            rw [if_pos (List.mem_cons_of_mem _ further)]
            exact same
          rw [if_neg further] at same
          by_cases here : kind.id = first.id
          -- No later section is of the kind of this one, so the part is that of the whole run.
          · rw [if_pos (here ▸ List.mem_cons_self)]
            have counts : first.id ≠ SectionKind.customId := here ▸ kind.id_ne_customId
            have absent : kind.id ∉ parts.map RawSection.id := by
              intro member
              obtain ⟨other, among, equal⟩ := List.mem_map.mp member
              have beyond := later.ordered other among (equal ▸ kind.id_ne_customId)
              rw [(adds.ordered counts).2, equal, here] at beyond
              exact UInt8.lt_irrefl _ beyond
            exact SectionKind.same_trans (SectionKind.same_symm (later.same_of_absent absent)) same
          · rw [if_neg (List.not_mem_cons_of_ne_of_not_mem here further)]
            exact SectionKind.same_trans (adds.same here) same

/-- **A run of sections is read.** -/
theorem reads_sections (runs : Runs position last module parts result) {fuel : Nat}
    (enough : (parts.flatMap RawSection.bytes).length ≤ fuel) :
    ∃ later, sections fuel last module ⟨position, parts.flatMap RawSection.bytes⟩ =
      .ok result later := by
  induction runs generalizing fuel with
  | done => exact ⟨_, sections_nil ..⟩
  | @step position last after module middle result part parts reads misses sized adds later
      laterInduction =>
      rw [List.flatMap_cons] at enough ⊢
      rw [List.length_append, RawSection.bytes, List.length_cons] at enough
      obtain ⟨fuel, rfl⟩ : ∃ less, fuel = less + 1 := ⟨fuel - 1, by omega⟩
      have enoughFurther : (parts.flatMap RawSection.bytes).length ≤ fuel := by omega
      obtain ⟨last', read⟩ := laterInduction enoughFurther
      refine ⟨last', ?_⟩
      rw [sections_of_nextSection (List.cons_ne_nil _ _) (reads _), read]

/-- **A run that is cut off inside a section** is missed at the end of the input. -/
theorem misses_sections (runs : Runs position last module parts result) {front back : List UInt8}
    (cut : parts.flatMap RawSection.bytes = front ++ back)
    (inside : ∀ before, before <+: parts → before.flatMap RawSection.bytes ≠ front) {fuel : Nat}
    (enough : front.length ≤ fuel) :
    ∃ offset later, sections fuel last module ⟨position, front⟩ =
      .error (.unexpectedEnd offset) later := by
  induction runs generalizing front fuel with
  | done =>
      -- Nothing can be cut off of no sections.
      exact absurd (List.append_eq_nil_iff.mp cut.symm).1.symm (inside [] (List.nil_prefix))
  | @step position last after module middle result part parts reads misses sized adds later
      laterInduction =>
      have some : front ≠ [] := fun none => inside [] List.nil_prefix none.symm
      have positive := List.length_pos_of_ne_nil some
      obtain ⟨fuel, rfl⟩ : ∃ less, fuel = less + 1 := ⟨fuel - 1, by omega⟩
      rw [List.flatMap_cons] at cut
      rcases List.append_eq_append_iff.mp cut with ⟨inner, rfl, rest⟩ | ⟨inner, whole, rfl⟩
      -- The front has this section and a front of the others.
      · have further : ∀ before, before <+: parts → before.flatMap RawSection.bytes ≠ inner := by
          rintro before isFront rfl
          refine inside (part :: before) (List.cons_prefix_cons.mpr ⟨rfl, isFront⟩) ?_
          rw [List.flatMap_cons]
        have enoughFurther : inner.length ≤ fuel := by
          rw [List.length_append, RawSection.bytes, List.length_cons] at enough
          omega
        obtain ⟨offset, later, fails⟩ := laterInduction rest further enoughFurther
        exact ⟨offset, later, by rw [sections_of_nextSection some (reads inner), fails]⟩
      -- The front ends in this section, or at its end.
      · by_cases none : inner = []
        · subst none
          refine absurd ?_ (inside [part] (List.cons_prefix_cons.mpr ⟨rfl, List.nil_prefix⟩))
          rw [List.flatMap_singleton, whole, List.append_nil]
        · obtain ⟨offset, later, fails⟩ := misses front inner whole none
          exact ⟨offset, later, sections_of_failure some fails fuel⟩

end Runs

/-- **Sections that are read are a run.** -/
theorem exists_runs {fuel : Nat} {last : UInt8} {module result : Module} {cursor later : Cursor}
    (enough : cursor.rest.length ≤ fuel)
    (equation : sections fuel last module cursor = .ok result later) :
    ∃ parts, cursor.rest = parts.flatMap RawSection.bytes ∧
      Runs cursor.position last module parts result := by
  induction fuel generalizing last module cursor with
  | zero =>
      cases equation
      exact ⟨[], List.length_eq_zero_iff.mp (Nat.le_zero.mp enough), .done⟩
  | succ fuel fuelInduction =>
      rw [sections, bind_of_ok _ (get_apply cursor)] at equation
      split at equation
      · next empty =>
          cases equation
          exact ⟨[], List.isEmpty_iff.mp empty, .done⟩
      · obtain ⟨⟨after, middle⟩, stop, step, onward⟩ := bind_eq_ok.mp equation
        obtain ⟨bytes, split, reads, misses⟩ := exact_nextSection last module cursor stop _ step
        obtain ⟨_, splits, place, part, rfl, sized, adds⟩ :=
          admits_rawSection last module cursor stop _ step
        -- The bytes that were read and those of the section stand in front of the same rest.
        obtain rfl : bytes = part.bytes := List.append_cancel_right (split.symm.trans splits)
        have fewer : stop.rest.length ≤ fuel := by
          rw [split, List.length_append, RawSection.bytes, List.length_cons] at enough
          omega
        obtain ⟨parts, rest, runs⟩ := fuelInduction fewer onward
        refine ⟨part :: parts, ?_, .step reads misses sized adds (place ▸ runs)⟩
        rw [split, rest, List.flatMap_cons]

/-! ## Whole modules -/

/-- The header has eight bytes. -/
theorem length_header : header.length = 8 := rfl

/-- A front of the header is not a header. -/
theorem decodeModule_take_header : ∀ count : Fin header.length,
    decodeModule (header.take count) = .error (.badHeader (if count.val < 4 then 0 else 4)) := by
  decide +kernel

/-- **A module that is cut off anywhere is told from a whole one.** The bytes of a module are the
header and sections with their numbers and lengths, in one way only. A front of them that ends in
the header is refused for its header. One that ends where the header or a section ends is a module,
which has the parts of the sections up to there and no others. One that ends inside a section is
refused for want of bytes. -/
theorem truncation_detected {bytes : List UInt8} {module : Module}
    (decoded : decodeModule bytes = .ok module) :
    (∃ parts, IsSectioned bytes parts) ∧
    ∀ parts, IsSectioned bytes parts → ∀ count < bytes.length,
      (count < 8 →
        decodeModule (bytes.take count) = .error (.badHeader (if count < 4 then 0 else 4))) ∧
      (∀ before, before <+: parts → count = 8 + (before.flatMap RawSection.bytes).length →
        ∃ found, decodeModule (bytes.take count) = .ok found ∧
          ∀ kind : SectionKind, SectionKind.Same
            (if kind.id ∈ before.map RawSection.id then module else {}) found kind) ∧
      (8 ≤ count →
        (∀ before, before <+: parts → count ≠ 8 + (before.flatMap RawSection.bytes).length) →
        ∃ offset, decodeModule (bytes.take count) = .error (.unexpectedEnd offset)) := by
  obtain ⟨cursor, -, split, -⟩ := sections_of_decodeModule decoded
  obtain ⟨body, rfl⟩ : ∃ body, bytes = header ++ body := ⟨_, split⟩
  rw [decodeModule_header] at decoded
  obtain ⟨stop, equation⟩ := outcome_eq_ok.mp decoded
  have enough : (Cursor.mk header.length body).rest.length ≤ body.length := Nat.le_refl _
  obtain ⟨parts, rfl, runs⟩ := exists_runs enough equation
  have sectioned : IsSectioned (header ++ parts.flatMap RawSection.bytes) parts :=
    ⟨rfl, runs.sized⟩
  refine ⟨⟨parts, sectioned⟩, fun others sectionedToo => ?_⟩
  obtain rfl := sectioned.unique sectionedToo
  -- Past the header, what is cut off is cut off of the sections.
  have past (rest : Nat) : (header ++ parts.flatMap RawSection.bytes).take (header.length + rest) =
      header ++ (parts.flatMap RawSection.bytes).take rest := List.take_length_add_append rest
  refine fun count less => ⟨fun early => ?_, ?_, fun late inside => ?_⟩
  · rw [List.take_append_of_le_length (Nat.le_of_lt early)]
    exact decodeModule_take_header ⟨count, early⟩
  · rintro before ⟨after, rfl⟩ rfl
    obtain ⟨found, front, agrees⟩ := runs.front (List.prefix_append before after)
    obtain ⟨later, reads⟩ := front.reads_sections (Nat.le_refl _)
    refine ⟨found, ?_, agrees⟩
    rw [← length_header, past, List.flatMap_append, List.take_left, decodeModule_header]
    exact outcome_eq_ok.mpr ⟨later, reads⟩
  · obtain ⟨rest, rfl⟩ := Nat.exists_eq_add_of_le late
    rw [← length_header, past, decodeModule_header]
    have cut := (List.take_append_drop rest (parts.flatMap RawSection.bytes)).symm
    have within : rest < (parts.flatMap RawSection.bytes).length := by
      rw [List.length_append] at less
      exact Nat.lt_of_add_lt_add_left less
    have cutInside : ∀ before, before <+: parts →
        before.flatMap RawSection.bytes ≠ (parts.flatMap RawSection.bytes).take rest := by
      intro before isFront same
      refine inside before isFront ?_
      rw [same, List.length_take, Nat.min_eq_left (Nat.le_of_lt within)]
    obtain ⟨offset, later, fails⟩ := runs.misses_sections cut cutInside (Nat.le_refl _)
    exact ⟨offset, outcome_eq_error.mpr ⟨later, fails⟩⟩

/-- The sections of a module with a memory and a start function, and one between them that is passed
over. -/
def startingSections : List RawSection :=
  [⟨0x05, [0x03], [0x01, 0x00, 0x01]⟩, ⟨0x00, [0x02], [0x01, 0x61]⟩, ⟨0x08, [0x81, 0x00], [0x00]⟩]

/-- The module. -/
def startingModule : Module where
  memory := some ⟨1, none⟩
  start := some 0

/-- Without its last section the module has a memory and no start function; without the last byte of
that section's length it is none. -/
theorem truncation_detected_starting :
    decodeModule (header ++ startingSections.flatMap RawSection.bytes) = .ok startingModule ∧
      (∃ found,
        decodeModule ((header ++ startingSections.flatMap RawSection.bytes).take 17) = .ok found ∧
          found.memory = some ⟨1, none⟩ ∧ found.start = none) ∧
      ∃ offset, decodeModule ((header ++ startingSections.flatMap RawSection.bytes).take 19) =
        .error (.unexpectedEnd offset) := by
  have decoded : decodeModule (header ++ startingSections.flatMap RawSection.bytes) =
      .ok startingModule := by decide +kernel
  have sectioned : IsSectioned (header ++ startingSections.flatMap RawSection.bytes)
      startingSections := by
    refine ⟨rfl, ?_⟩
    simp only [startingSections, List.forall_mem_cons]
    refine ⟨⟨by decide, .last _ rfl, by decide, ?_, by decide⟩,
      ⟨by decide, .last _ rfl, by decide, ?_, by decide⟩,
      ⟨by decide, .more _ rfl (.last _ rfl), by decide, ?_, by decide⟩, List.forall_mem_nil _⟩
    all_goals simp [number_cons]
  obtain ⟨-, cuts⟩ := truncation_detected decoded
  obtain ⟨-, boundary, -⟩ := cuts startingSections sectioned 17 (by decide)
  obtain ⟨-, -, inside⟩ := cuts startingSections sectioned 19 (by decide)
  obtain ⟨found, reads, agrees⟩ := boundary (startingSections.take 2) (List.take_prefix 2 _) rfl
  refine ⟨decoded, ⟨found, reads, (agrees .memory).symm, (agrees .start).symm⟩, ?_⟩
  refine inside (by decide) fun before isFront => ?_
  have none : ∀ before ∈ startingSections.inits,
      19 ≠ 8 + (before.flatMap RawSection.bytes).length := by decide
  exact none before ((List.mem_inits _ _).mpr isFront)

end Binary

end WasmCompiler
