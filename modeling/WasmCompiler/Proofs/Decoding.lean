import WasmCompiler.Binary.Section
import WasmCompiler.Proofs.Structuring

/-! # Decoded modules

What every module that is read satisfies, whatever its bytes.

* **`WellRead`** — bodies are linked code, and signatures have at most one result;
* **`wellRead_of_decodeModule`** — decoded modules are such. -/

namespace WasmCompiler.Binary

open Stateful

namespace Decoder

variable {α β : Type}

/-! ## What decoders yield -/

/-- **Whether every value that a decoder reads has a property.** -/
def Yields (property : α → Prop) (decoder : Decoder α) : Prop :=
  ∀ (cursor later : Cursor) (value : α), decoder cursor = .ok value later → property value

variable {property : α → Prop} {decoder : Decoder α}

/-- A sequence yields what its second part yields. -/
theorem Yields.bind {first : Decoder β} {second : β → Decoder α}
    (onward : ∀ value, Yields property (second value)) : Yields property (first >>= second) := by
  intro cursor later result equation
  obtain ⟨value, middle, -, equation⟩ := bind_eq_ok.mp equation
  exact onward value middle later result equation

/-- A sequence yields what its second part yields after what the first one does. -/
theorem Yields.bind_of {kept : β → Prop} {first : Decoder β} {second : β → Decoder α}
    (start : Yields kept first) (onward : ∀ value, kept value → Yields property (second value)) :
    Yields property (first >>= second) := by
  intro cursor later result equation
  obtain ⟨value, middle, firstEquation, equation⟩ := bind_eq_ok.mp equation
  exact onward value (start cursor middle value firstEquation) middle later result equation

/-- A decoder that just gives a value yields what holds of it. -/
theorem yields_pure {value : α} (holds : property value) :
    Yields property (pure value : Decoder α) := by
  intro cursor later result equation
  cases equation
  exact holds

/-- A decoder that refuses yields anything, since it gives no value. -/
theorem yields_throw (error : Error) : Yields property (throw error : Decoder α) := by
  intro cursor later result equation
  cases equation

/-- A check lets the rest run or fails. -/
theorem Yields.check {condition : Prop} [Decidable condition] {error : Error}
    {onward : Unit → Decoder α} (yields : condition → Yields property (onward ())) :
    Yields property (if condition then onward () else throw error >>= onward) := by
  by_cases holds : condition
  · rw [if_pos holds]
    exact yields holds
  · rw [if_neg holds]
    intro cursor later result equation
    cases equation

/-- A check lets the rest run unless it fails. -/
theorem Yields.refuse {condition : Prop} [Decidable condition] {error : Error}
    {onward : Unit → Decoder α} (yields : ¬condition → Yields property (onward ())) :
    Yields property (if condition then throw error >>= onward else onward ()) := by
  rw [← ite_not]
  exact Yields.check yields

/-- A window of its own changes nothing about the values. -/
theorem Yields.within (yields : Yields property decoder) (window : Cursor) :
    Yields property (within window decoder) := by
  intro cursor later result equation
  unfold Decoder.within at equation
  split at equation
  · next inside =>
      cases equation
      exact yields _ _ _ inside
  · cases equation

/-- Repetition yields values with the property in the number asked for. -/
theorem yields_repeatOnto (yields : Yields property decoder) (count : Nat) {read : List α}
    (earlier : ∀ value ∈ read, property value) :
    Yields (fun values => (∀ value ∈ values, property value) ∧
      values.length = read.length + count) (repeatOnto decoder count read) := by
  induction count generalizing read with
  | zero =>
      refine yields_pure ⟨fun value member => ?_, List.length_reverse⟩
      exact earlier value (List.mem_reverse.mp member)
  | succ count countInduction =>
      refine Yields.bind_of yields fun value holds => ?_
      have more : ∀ other ∈ value :: read, property other := by
        intro other member
        rcases List.mem_cons.mp member with rfl | member
        · exact holds
        · exact earlier other member
      have length : (value :: read).length + count = read.length + (count + 1) := by
        rw [List.length_cons]
        omega
      rw [← length]
      exact countInduction more

/-- A vector yields values with the property. -/
theorem yields_vector (yields : Yields property decoder) :
    Yields (fun values => ∀ value ∈ values, property value) (vector decoder) := by
  refine Yields.bind fun count cursor later values equation => ?_
  have none : ∀ value ∈ ([] : List α), property value := fun _ absurd => by cases absurd
  exact (yields_repeatOnto yields count.toNat none cursor later values equation).1

/-! ## Entries -/

/-- **A signature has at most one result.** -/
theorem yields_signature : Yields (fun type => type.results.length ≤ 1) signature := by
  refine Yields.bind fun offset => Yields.bind fun form => Yields.check fun _ =>
    Yields.bind fun params => Yields.bind fun resultsOffset => Yields.bind fun count =>
      Yields.refuse fun few => ?_
  have anyValue : Yields (fun _ => True) valueType := fun _ _ _ _ => trivial
  have none : ∀ value ∈ ([] : List ValueType), True := fun _ _ => trivial
  refine Yields.bind_of (yields_repeatOnto anyValue count.toNat none) fun results counted => ?_
  refine yields_pure ?_
  rw [counted.2, List.length_nil, Nat.zero_add]
  exact Nat.le_of_not_lt few

/-- **A body is linked code.** -/
theorem yields_codeEntry : Yields Structured codeEntry := by
  refine Yields.bind fun size => Yields.bind fun entry => ?_
  refine Yields.within ?_ entry
  intro cursor later value equation
  exact structured_of_body equation

end Decoder

/-! ## Modules -/

/-- **Whether a module is one that can be read**, as far as compilation relies on it. -/
structure WellRead (module : Module) : Prop where
  /-- Bodies are linked code. -/
  bodies : ∀ body ∈ module.bodies, Structured body
  /-- Signatures have at most one result. -/
  types : ∀ type ∈ module.types, type.results.length ≤ 1

namespace Decoder

/-- A section keeps a module well read. -/
theorem yields_payload (kind : SectionKind) {module : Module} (wellRead : WellRead module) :
    Yields WellRead (payload kind module) := by
  cases kind with
  | types =>
      refine Yields.bind_of (yields_vector yields_signature) fun types few => yields_pure ?_
      exact ⟨wellRead.bodies, few⟩
  | code =>
      refine Yields.bind_of (yields_vector yields_codeEntry) fun bodies linked => yields_pure ?_
      exact ⟨linked, wellRead.types⟩
  | imports =>
      refine Yields.bind fun count => Yields.bind fun imports => yields_pure ?_
      exact ⟨wellRead.bodies, wellRead.types⟩
  | functions | table | memory | globals | exports | start | elements | data =>
      refine Yields.bind fun part => yields_pure ?_
      exact ⟨wellRead.bodies, wellRead.types⟩

/-- **Every section leaves the module well read.** -/
theorem yields_nextSection (last : UInt8) {module : Module} (wellRead : WellRead module) :
    Yields (fun result => WellRead result.2) (nextSection last module) := by
  refine Yields.bind fun offset => Yields.bind fun id => Yields.bind fun length =>
    Yields.bind fun contents => ?_
  by_cases custom : id = SectionKind.customId
  · rw [if_pos custom]
    exact yields_pure wellRead
  · rw [if_neg custom]
    split
    · exact yields_throw _
    · next kind found =>
        have inside : Yields WellRead
            (do
              let module ← payload kind module
              expectEnd (.sectionTooLong · id)
              return module : Decoder Module) :=
          Yields.bind_of (yields_payload kind wellRead) fun module holds =>
            Yields.bind fun _ => yields_pure holds
        refine Yields.refuse fun _ => ?_
        exact Yields.bind_of (inside.within contents) fun module holds => yields_pure holds

/-- **So do all sections in turn.** -/
theorem yields_sections (fuel : Nat) (last : UInt8) {module : Module}
    (wellRead : WellRead module) : Yields WellRead (sections fuel last module) := by
  induction fuel generalizing last module with
  | zero => exact yields_pure wellRead
  | succ fuel fuelInduction =>
      refine Yields.bind fun cursor => ?_
      split
      · exact yields_pure wellRead
      · exact Yields.bind_of (yields_nextSection last wellRead) fun result holds =>
          fuelInduction result.1 holds

end Decoder

/-- **A decoded module is well read.** -/
theorem wellRead_of_decodeModule {bytes : List UInt8} {module : Module}
    (decoded : decodeModule bytes = .ok module) : WellRead module := by
  have empty : WellRead {} :=
    ⟨fun _ absurd => (List.not_mem_nil absurd).elim, fun _ absurd => (List.not_mem_nil absurd).elim⟩
  have yields : Decoder.Yields WellRead Decoder.module :=
    Decoder.Yields.bind fun _ => Decoder.Yields.bind fun _ => Decoder.Yields.bind fun cursor =>
      Decoder.yields_sections cursor.remaining 0 empty
  unfold decodeModule Decoder.outcome at decoded
  split at decoded
  · next equation =>
      cases decoded
      exact yields _ _ _ equation
  · cases decoded

end WasmCompiler.Binary
