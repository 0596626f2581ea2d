import WasmCompiler.Proofs.Codecs

/-! # Locals in runs

Grouping locals into the longest runs of one type loses nothing, and no other groups of the same
locals take fewer bytes, since joining two runs never makes their numbers longer.

* **`flatMap_runs`** — the runs give the locals back;
* **`runs_replicate_append`** — a group in front either is a run or prolongs the first one;
* **`exists_groups`** — the encoded locals are groups that are read;
* **`least_locals`** — no groups of the same locals are shorter. -/

namespace WasmCompiler

namespace Varint

/-- An integer is below the bound that the length of its shortest form sets. -/
theorem lt_of_length_unsignedForm (value : Nat) :
    value < 2 ^ (7 * (unsignedForm value).length) := by
  have bound := number_lt (unsignedForm value)
  rwa [number_unsignedForm] at bound

/-- The shortest form has a byte. -/
theorem length_unsignedForm_pos (value : Nat) : 0 < (unsignedForm value).length := by
  obtain ⟨count, -, length, -⟩ := (isNumeral_unsignedForm value).exists_low
  rw [length]
  exact Nat.succ_pos count

/-- An integer below a bound takes no more bytes than the bound allows. -/
theorem length_unsignedForm_le_of_pos {value count : Nat} (positive : 0 < count)
    (bound : value < 2 ^ (7 * count)) : (unsignedForm value).length ≤ count := by
  obtain ⟨less, rfl⟩ := Nat.exists_eq_succ_of_ne_zero positive.ne'
  exact length_unsignedForm_le_of_lt bound

/-- A smaller integer takes no more bytes. -/
theorem length_unsignedForm_mono {first second : Nat} (below : first ≤ second) :
    (unsignedForm first).length ≤ (unsignedForm second).length :=
  length_unsignedForm_le_of_pos (length_unsignedForm_pos second)
    (below.trans_lt (lt_of_length_unsignedForm second))

/-- A sum takes no more bytes than its summands. -/
theorem length_unsignedForm_add_le (first second : Nat) :
    (unsignedForm (first + second)).length ≤
      (unsignedForm first).length + (unsignedForm second).length := by
  have one := length_unsignedForm_pos first
  have other := length_unsignedForm_pos second
  refine length_unsignedForm_le_of_pos (Nat.add_pos_left one _) ?_
  -- Both bounds are at least 2, so their sum is at most their product.
  have power (count : Nat) (positive : 0 < count) : 2 ≤ 2 ^ (7 * count) :=
    Nat.le_self_pow (by omega) 2
  calc first + second
      < 2 ^ (7 * (unsignedForm first).length) + 2 ^ (7 * (unsignedForm second).length) :=
        Nat.add_lt_add (lt_of_length_unsignedForm first) (lt_of_length_unsignedForm second)
    _ ≤ 2 ^ (7 * (unsignedForm first).length) * 2 ^ (7 * (unsignedForm second).length) :=
        Nat.add_le_mul (power _ one) (power _ other)
    _ = 2 ^ (7 * ((unsignedForm first).length + (unsignedForm second).length)) := by
        rw [← pow_add, Nat.mul_add]

end Varint

namespace Binary

open Decoder Varint

/-! ## Runs -/

section

variable {α : Type} [DecidableEq α]

/-- The runs give the values back. -/
theorem flatMap_runs (values : List α) :
    ((runs values).flatMap fun run => List.replicate run.1 run.2) = values := by
  induction values with
  | nil => rfl
  | cons value values valuesInduction =>
      rw [runs]
      split
      · next none =>
          rw [none] at valuesInduction
          rw [← valuesInduction]
          rfl
      · next count other rest some =>
          rw [some] at valuesInduction
          split
          · next same =>
              rw [← valuesInduction, same, List.flatMap_cons, List.replicate_succ]
              rfl
          · rw [List.flatMap_cons, valuesInduction]
            rfl

/-- There are no more runs than values. -/
theorem length_runs_le (values : List α) : (runs values).length ≤ values.length := by
  induction values with
  | nil => exact Nat.le_refl 0
  | cons value values valuesInduction =>
      rw [runs]
      split
      · exact Nat.le_add_left 1 values.length
      · next some =>
          rw [some] at valuesInduction
          split
          · exact Nat.le_succ_of_le valuesInduction
          · exact Nat.succ_le_succ valuesInduction

/-- No run is longer than all values together. -/
theorem run_le_length {values : List α} {run : Nat × α} (member : run ∈ runs values) :
    run.1 ≤ values.length := by
  obtain ⟨before, after, split⟩ := List.append_of_mem member
  have whole := congrArg List.length (flatMap_runs values)
  rw [split, List.flatMap_append, List.flatMap_cons, List.length_append, List.length_append,
    List.length_replicate] at whole
  omega

/-- **Equal values in front** are a run of their own or prolong the first run. -/
theorem runs_replicate_append (value : α) (count : Nat) (values : List α) :
    runs (List.replicate (count + 1) value ++ values) = (count + 1, value) :: runs values ∨
      ∃ more rest, runs values = (more, value) :: rest ∧
        runs (List.replicate (count + 1) value ++ values) = (count + 1 + more, value) :: rest := by
  induction count with
  | zero =>
      show runs (value :: values) = _ ∨ ∃ more rest, _ ∧ runs (value :: values) = _
      rw [runs]
      split
      · next none => exact .inl (none ▸ rfl)
      · next more other rest some =>
          split
          · next same => exact .inr ⟨more, rest, by rw [some, same], by rw [same, Nat.add_comm]⟩
          · exact .inl (some ▸ rfl)
  | succ count countInduction =>
      rw [List.replicate_succ, List.cons_append, runs]
      rcases countInduction with alone | ⟨more, rest, found, joined⟩
      · rw [alone]
        exact .inl (if_pos rfl)
      · rw [joined]
        refine .inr ⟨more, rest, found, (if_pos rfl).trans ?_⟩
        rw [Nat.add_right_comm]

end

/-! ## Groups of locals -/

/-- The encoding of a group, which need not be a run. -/
def encodeGroup (group : LocalGroup) : List UInt8 :=
  encodeRun (group.count.toNat, group.type)

/-- A group of locals is spelled by its count and its type. -/
theorem spellsGroup_encodeGroup (group : LocalGroup) : SpellsGroup (encodeGroup group) group :=
  ⟨_, rfl, spellsIndex_encodeIndex group.count⟩

/-- The locals of groups are as many as the groups count. -/
theorem length_flatMap_locals (groups : List LocalGroup) :
    (groups.flatMap LocalGroup.locals).length = localCount groups := by
  rw [List.length_flatMap, localCount]
  simp only [LocalGroup.locals, List.length_replicate]

/-- **Encoded locals** are groups of them. -/
theorem exists_groups {locals : List ValueType} (few : locals.length ≤ maxLocals) :
    ∃ groups, IsVector SpellsGroup (encodeLocals locals) groups ∧
      localCount groups ≤ maxLocals ∧ groups.flatMap LocalGroup.locals = locals := by
  let group (run : Nat × ValueType) : LocalGroup := ⟨run.1.toUInt32, run.2⟩
  -- A run is no longer than the locals, so its length survives as a count of 32 bits.
  have whole : ∀ run ∈ runs locals, run.1.toUInt32.toNat = run.1 := fun run member =>
    UInt32.toNat_ofNat_of_lt ((run_le_length member).trans_lt (few.trans_lt (by decide)))
  have encoded : ((runs locals).map group).flatMap encodeGroup =
      (runs locals).flatMap encodeRun := by
    rw [List.flatMap_map]
    refine List.flatMap_congr fun run member => ?_
    rw [encodeGroup, whole run member]
  have spelled : ((runs locals).map group).flatMap LocalGroup.locals = locals := by
    rw [List.flatMap_map]
    refine (List.flatMap_congr fun run member => ?_).trans (flatMap_runs locals)
    rw [LocalGroup.locals, whole run member]
  have count : IsCount ((runs locals).map group).length := by
    rw [List.length_map]
    exact (length_runs_le locals).trans_lt (few.trans_lt (by decide))
  refine ⟨(runs locals).map group, ⟨unsignedForm (runs locals).length, _, rfl, ?_, ?_⟩, ?_,
    spelled⟩
  · have spells := spellsUnsigned_count count
    rw [List.length_map] at spells ⊢
    exact spells
  · rw [← encoded]
    exact items_flatMap fun group _ => spellsGroup_encodeGroup group
  · rw [← length_flatMap_locals, spelled]
    exact few

/-- Joining groups into runs makes neither their number nor their encoding longer. -/
theorem runs_locals_le (groups : List LocalGroup) :
    (runs (groups.flatMap LocalGroup.locals)).length ≤ groups.length ∧
      ((runs (groups.flatMap LocalGroup.locals)).flatMap encodeRun).length ≤
        (groups.flatMap encodeGroup).length := by
  induction groups with
  | nil => exact ⟨Nat.le_refl 0, Nat.le_refl 0⟩
  | cons group groups groupsInduction =>
      obtain ⟨fewer, shorter⟩ := groupsInduction
      rw [List.flatMap_cons, LocalGroup.locals]
      -- A group of no locals vanishes; any other group is a run or joins the next one.
      cases size : group.count.toNat with
      | zero =>
          rw [List.replicate_zero, List.nil_append, List.flatMap_cons, List.length_append,
            List.length_cons]
          exact ⟨Nat.le_succ_of_le fewer, Nat.le_add_left_of_le shorter⟩
      | succ count =>
          have front : (encodeGroup group).length = (unsignedForm (count + 1)).length + 1 := by
            rw [encodeGroup, size, encodeRun, List.length_append]
            rfl
          rw [List.flatMap_cons, List.length_append, front, List.length_cons]
          rcases runs_replicate_append group.type count (groups.flatMap LocalGroup.locals) with
            alone | ⟨more, rest, found, joined⟩
          · rw [alone, List.flatMap_cons, List.length_append, encodeRun, List.length_append]
            exact ⟨Nat.succ_le_succ fewer, Nat.add_le_add_left shorter _⟩
          · have sum := length_unsignedForm_add_le (count + 1) more
            rw [joined]
            rw [found] at fewer shorter
            simp only [List.flatMap_cons, List.length_append, List.length_cons, encodeRun,
              encodeValueType, List.length_nil] at fewer shorter ⊢
            omega

/-- **No groups of the same locals are shorter** than the encoded ones. -/
theorem least_locals {bytes : List UInt8} {groups : List LocalGroup}
    (vector : IsVector SpellsGroup bytes groups) :
    (encodeLocals (groups.flatMap LocalGroup.locals)).length ≤ bytes.length := by
  have each (front : List UInt8) (group : LocalGroup) (spells : SpellsGroup front group) :
      True ∧ (encodeGroup group).length ≤ front.length := by
    obtain ⟨count, rfl, index⟩ := spells
    rw [encodeGroup, encodeRun, List.length_append, List.length_append]
    exact ⟨trivial, Nat.add_le_add_right (least_unsignedForm index) 1⟩
  obtain ⟨fewer, shorter⟩ := runs_locals_le groups
  have least := (least_vector each vector).2
  have counts := length_unsignedForm_mono fewer
  rw [encodeVector, List.length_append] at least
  rw [encodeLocals, encodeVector, List.length_append]
  omega

end Binary

end WasmCompiler
