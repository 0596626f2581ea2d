import WasmCompiler.Proofs.Histories
import WasmCompiler.Proofs.Immutability

/-! # Where segments are placed

Before anything runs, the segments of a module are put into its table and its memory, one after the
other, each from the offset that its initializer stands for. Offsets are integers of 32 bits, those
below zero read as large ones, but nothing wraps around: a table has fewer slots than 32 bits
count, so a function that would be put behind them is refused at the first slot that is not there.

* **`Declarations.Denotes`** — the value that an initializer stands for;
* **`Declarations.Last`** — the last item of any segment at an address;
* **`Declarations.Places`** — an array holds the last items, and is empty elsewhere;
* **`foldlM_places`** — segments that are put into an array one after the other are placed;
* **`segments_are_placed`** — what instances start with, and what keeps them from being made. -/

namespace WasmCompiler

open Bytecode (Assembly)
open Machine

namespace Declarations

variable {Item : Type} {declarations : Declarations}

/-! ## Sizes -/

/-- The limits of the table: those of the last import of one, or else of the module's own. -/
def tableLimits? (declarations : Declarations) : Option Limits :=
  (declarations.imports.filterMap Import.table?).getLast?.or declarations.table

/-- The limits of the memory: those of the last import of one, or else of the module's own. -/
def memoryLimits? (declarations : Declarations) : Option Limits :=
  (declarations.imports.filterMap Import.memory?).getLast?.or declarations.memory

/-- The number of slots of the table at the start. -/
def tableSize (declarations : Declarations) : Nat :=
  (declarations.tableLimits?.map fun limits => limits.initial.toNat).getD 0

/-- The number of bytes of the memory at the start. -/
def memorySize (declarations : Declarations) : Nat :=
  (declarations.memoryLimits?.map fun limits => limits.initial.toNat).getD 0 * pageSize

/-- Slots of the table are counted by 32 bits. -/
theorem tableSize_lt (declarations : Declarations) : declarations.tableSize < 2 ^ 32 := by
  unfold tableSize
  cases declarations.tableLimits? with
  | none => exact Nat.two_pow_pos 32
  | some limits => exact limits.initial.toNat_lt

/-! ## Initializers -/

/-- **The value that an initializer stands for**: a constant, or what a global starts with. -/
inductive Denotes (declarations : Declarations) : Initializer → Value → Prop
  /-- A constant stands for itself. -/
  | constant (value : Value) : Denotes declarations (.constant value) value
  /-- The value of a global. -/
  | getGlobal {index : UInt32} {value : Value} (starts : declarations.StartsAs index.toNat value) :
      Denotes declarations (.getGlobal index) value

/-- An initializer stands for one value only. -/
theorem Denotes.unique {initial : Initializer} {first second : Value}
    (one : declarations.Denotes initial first) (other : declarations.Denotes initial second) :
    first = second := by
  cases one with
  | constant =>
      cases other
      rfl
  | getGlobal starts =>
      cases other with
      | getGlobal startsOther => exact starts.unique startsOther

/-! ## Items of segments -/

/-- **Whether an item of a segment lies at an address**: as far behind the start of the segment as
it stands behind the first item. The start is the offset without its sign; nothing wraps. -/
inductive Lies (declarations : Declarations) (segments : List (Initializer × List Item)) :
    (segment position address : Nat) → (item : Item) → Prop
  /-- The item of a position in a segment. -/
  | item {segment position : Nat} {offset : Initializer} {items : List Item} {start : BitVec 32}
      {item : Item} (found : segments[segment]? = some (offset, items))
      (starts : declarations.Denotes offset (.i32 start))
      (listed : items[position]? = some item) :
      Lies declarations segments segment position (start.toNat + position) item

/-- **Whether an item is the last one at an address**, in the order of segments and then in that of
positions. -/
def Last (declarations : Declarations) (segments : List (Initializer × List Item))
    (address : Nat) (item : Item) : Prop :=
  ∃ segment position, declarations.Lies segments segment position address item ∧
    ∀ otherSegment otherPosition other,
      declarations.Lies segments otherSegment otherPosition address other →
        otherSegment < segment ∨ otherSegment = segment ∧ otherPosition ≤ position

/-- Whether no item lies at an address. -/
def Vacant (declarations : Declarations) (segments : List (Initializer × List Item))
    (address : Nat) : Prop :=
  ∀ segment position item, ¬declarations.Lies segments segment position address item

/-- **Whether segments are placed in an array**: at every address is the last item that lies there,
and nothing where none does. -/
def Places (declarations : Declarations) (segments : List (Initializer × List Item))
    (nothing : Item) (array : Array Item) : Prop :=
  ∀ address, address < array.size →
    (∃ item, declarations.Last segments address item ∧ array[address]? = some item) ∨
      declarations.Vacant segments address ∧ array[address]? = some nothing

/-- **What is wrong with declarations that cannot be placed.** -/
inductive Misplaces (declarations : Declarations) : Prop
  /-- A global is imported. -/
  | imported {type : GlobalType} (member : type ∈ declarations.importedGlobalTypes)
  /-- A segment of the table does not start at an integer of 32 bits. -/
  | elementOffset {segment : ElementSegment} (member : segment ∈ declarations.elements)
      (other : ∀ start : BitVec 32, ¬declarations.Denotes segment.offset (.i32 start))
  /-- A function would lie behind the table. -/
  | element {segment : ElementSegment} {start : BitVec 32} {position : Nat}
      (member : segment ∈ declarations.elements)
      (starts : declarations.Denotes segment.offset (.i32 start))
      (listed : position < segment.functions.length)
      (outside : declarations.tableSize ≤ start.toNat + position)
  /-- A segment of the memory does not start at an integer of 32 bits. -/
  | dataOffset {segment : DataSegment} (member : segment ∈ declarations.data)
      (other : ∀ start : BitVec 32, ¬declarations.Denotes segment.offset (.i32 start))
  /-- A segment of the memory, which may be empty, would end behind it. -/
  | data {segment : DataSegment} {start : BitVec 32} (member : segment ∈ declarations.data)
      (starts : declarations.Denotes segment.offset (.i32 start))
      (outside : declarations.memorySize < start.toNat + segment.bytes.length)

variable {offset : Initializer} {items : List Item} {segments : List (Initializer × List Item)}
  {address : Nat} {item : Item}

/-- Nothing lies where there are no segments. -/
theorem vacant_nil (address : Nat) :
    declarations.Vacant ([] : List (Initializer × List Item)) address := by
  rintro _ _ _ ⟨found, -, -⟩
  cases found

/-- Behind another segment, items lie where they did. -/
theorem lies_succ {segment position : Nat} (front : Initializer × List Item) :
    declarations.Lies (front :: segments) (segment + 1) position address item ↔
      declarations.Lies segments segment position address item := by
  constructor
  · rintro ⟨found, starts, listed⟩
    exact .item found starts listed
  · rintro ⟨found, starts, listed⟩
    exact .item found starts listed

/-- The items of the first segment. -/
theorem lies_zero {start : BitVec 32} (starts : declarations.Denotes offset (.i32 start))
    {position : Nat} :
    declarations.Lies ((offset, items) :: segments) 0 position address item ↔
      items[position]? = some item ∧ address = start.toNat + position := by
  constructor
  · intro lies
    cases lies with
    | item found startsOther listed =>
        cases found
        cases startsOther.unique starts
        exact ⟨listed, rfl⟩
  · rintro ⟨listed, rfl⟩
    exact .item rfl starts listed

/-- What is last in later segments is last. -/
theorem Last.cons (front : Initializer × List Item)
    (last : declarations.Last segments address item) :
    declarations.Last (front :: segments) address item := by
  obtain ⟨segment, position, lies, greatest⟩ := last
  refine ⟨segment + 1, position, (lies_succ front).mpr lies, fun other place found liesOther => ?_⟩
  cases other with
  | zero => exact .inl (Nat.succ_pos segment)
  | succ other =>
      rcases greatest other place found ((lies_succ front).mp liesOther) with before | ⟨rfl, within⟩
      · exact .inl (Nat.succ_lt_succ before)
      · exact .inr ⟨rfl, within⟩

/-- If no later segment reaches an address, what the first one puts there is last. -/
theorem last_of_vacant {start : BitVec 32} (starts : declarations.Denotes offset (.i32 start))
    (vacant : declarations.Vacant segments address) {position : Nat}
    (listed : items[position]? = some item) (place : address = start.toNat + position) :
    declarations.Last ((offset, items) :: segments) address item := by
  refine ⟨0, position, (lies_zero starts).mpr ⟨listed, place⟩, fun other place' found lies => ?_⟩
  cases other with
  | zero =>
      obtain ⟨-, same⟩ := (lies_zero starts).mp lies
      exact .inr ⟨rfl, by omega⟩
  | succ other => exact (vacant other place' found ((lies_succ _).mp lies)).elim

/-- An address that the first segment does not reach either is vacant. -/
theorem Vacant.cons {start : BitVec 32} (starts : declarations.Denotes offset (.i32 start))
    (vacant : declarations.Vacant segments address)
    (outside : ∀ position item, items[position]? = some item → address ≠ start.toNat + position) :
    declarations.Vacant ((offset, items) :: segments) address := by
  intro segment position item lies
  cases segment with
  | zero =>
      obtain ⟨listed, place⟩ := (lies_zero starts).mp lies
      exact outside position item listed place
  | succ segment => exact vacant segment position item ((lies_succ _).mp lies)

/-- Where no segment has put anything is what the array was created with. -/
theorem places_of_replicate {nothing : Item} {first last : Array Item} {size : Nat}
    (created : first = Array.replicate size nothing) (sized : last.size = size)
    (placed : ∀ address, (∃ item, declarations.Last segments address item ∧
        last[address]? = some item) ∨
      declarations.Vacant segments address ∧ last[address]? = first[address]?) :
    declarations.Places segments nothing last := by
  intro address inside
  rcases placed address with there | ⟨vacant, same⟩
  · exact .inl there
  · refine .inr ⟨vacant, same.trans ?_⟩
    rw [created, Array.getElem?_replicate, if_pos (sized ▸ inside)]

end Declarations

/-! ## Putting segments into arrays -/

/-- **Whether items have been put into an array** from an address on: there they are, and everywhere
else is what was there. -/
def PutInto {Item : Type} (start : Nat) (items : List Item) (before later : Array Item) : Prop :=
  ∀ address,
    (∃ position item, items[position]? = some item ∧ address = start + position ∧
        later[address]? = some item) ∨
      (∀ position item, items[position]? = some item → address ≠ start + position) ∧
        later[address]? = before[address]?

/-- An item is put in place before those after it. -/
theorem PutInto.cons {Item : Type} {start : Nat} {item : Item} {items : List Item}
    {before later : Array Item} (inside : start < before.size)
    (rest : PutInto (start + 1) items (before.setIfInBounds start item) later) :
    PutInto start (item :: items) before later := by
  intro address
  rcases rest address with ⟨position, other, listed, place, holds⟩ | ⟨outside, same⟩
  · exact .inl ⟨position + 1, other, listed, by omega, holds⟩
  by_cases here : start = address
  · subst here
    rw [Array.getElem?_setIfInBounds_self_of_lt inside] at same
    exact .inl ⟨0, item, rfl, rfl, same⟩
  · rw [Array.getElem?_setIfInBounds_ne here] at same
    refine .inr ⟨fun position other listed => ?_, same⟩
    cases position with
    | zero => exact Ne.symm here
    | succ position =>
        have apart := outside position other listed
        omega

section

variable {declarations : Declarations} {State Segment Item : Type} {size : Nat}

/-- **Segments that are put into an array one after the other are placed** above what was there,
if each of them is put there; and each of them fits. -/
theorem foldlM_places (array : State → Array Item) (parts : Segment → Initializer × List Item)
    (fits : (start count : Nat) → Prop) {put : State → Segment → Except Trap State}
    (each : ∀ before segment later, (array before).size = size → put before segment = .ok later →
      (array later).size = size ∧ ∃ start : BitVec 32,
        declarations.Denotes (parts segment).1 (.i32 start) ∧
          fits start.toNat (parts segment).2.length ∧
          PutInto start.toNat (parts segment).2 (array before) (array later))
    {segments : List Segment} {first last : State} (sized : (array first).size = size)
    (puts : segments.foldlM put first = .ok last) :
    (array last).size = size ∧
      (∀ segment ∈ segments, ∃ start : BitVec 32,
        declarations.Denotes (parts segment).1 (.i32 start) ∧
          fits start.toNat (parts segment).2.length) ∧
      ∀ address,
        (∃ item, declarations.Last (segments.map parts) address item ∧
            (array last)[address]? = some item) ∨
          declarations.Vacant (segments.map parts) address ∧
            (array last)[address]? = (array first)[address]? := by
  induction segments generalizing first with
  | nil =>
      cases puts
      exact ⟨sized, List.forall_mem_nil _, fun address =>
        .inr ⟨Declarations.vacant_nil address, rfl⟩⟩
  | cons segment segments segmentsInduction =>
      rw [List.foldlM_cons] at puts
      obtain ⟨middle, added, others⟩ := Binary.except_bind_eq_ok puts
      obtain ⟨sizedMiddle, start, starts, within, putInto⟩ := each first segment middle sized added
      obtain ⟨sizedLast, fitting, placed⟩ := segmentsInduction sizedMiddle others
      refine ⟨sizedLast, List.forall_mem_cons.mpr ⟨⟨start, starts, within⟩, fitting⟩,
        fun address => ?_⟩
      rcases placed address with ⟨item, isLast, holds⟩ | ⟨vacant, same⟩
      -- A later segment has put something there.
      · exact .inl ⟨item, isLast.cons _, holds⟩
      -- No later one has, so it is left to this one.
      rcases putInto address with ⟨position, item, listed, place, holds⟩ | ⟨outside, kept⟩
      · exact .inl ⟨item, Declarations.last_of_vacant starts vacant listed place,
          same.trans holds⟩
      · exact .inr ⟨vacant.cons starts outside, same.trans kept⟩

end

/-! ## The table and the memory -/

namespace Machine

variable {declarations : Declarations}

/-- The functions of a segment, in the form in which slots hold them. -/
def elementParts (segment : ElementSegment) : Initializer × List (Option Nat) :=
  (segment.offset, segment.functions.map fun function => some function.toNat)

/-- The bytes of a segment. -/
def dataParts (segment : DataSegment) : Initializer × List UInt8 :=
  (segment.offset, segment.bytes)

/-- **Functions that are put into a table are where they belong**, and slot numbers do not wrap
around, since a table has fewer slots than 32 bits count. -/
theorem fillTable_eq_ok {table later : Array (Option Nat)} {start : Nat} {functions : List UInt32}
    (small : table.size < 2 ^ 32) (low : start < 2 ^ 32)
    (fills : fillTable table start functions = .ok later) :
    later.size = table.size ∧ (∀ position < functions.length, start + position < table.size) ∧
      PutInto start (functions.map fun function => some function.toNat) table later := by
  induction functions generalizing table start with
  | nil =>
      cases fills
      exact ⟨rfl, fun _ => nofun, fun _ => .inr ⟨fun _ _ => nofun, rfl⟩⟩
  | cons function functions functionsInduction =>
      have slot : start % Nat.pow 2 32 = start := Nat.mod_eq_of_lt low
      simp only [fillTable, slot] at fills
      split at fills
      · next inside =>
          -- The next slot is no more than the number of slots, so it does not wrap around either.
          have smallToo : (table.setIfInBounds start (some function.toNat)).size < 2 ^ 32 := by
            rwa [Array.size_setIfInBounds]
          obtain ⟨sized, within, rest⟩ :=
            functionsInduction smallToo (Nat.lt_of_le_of_lt inside small) fills
          rw [Array.size_setIfInBounds] at sized within
          refine ⟨sized, fun position listed => ?_, rest.cons inside⟩
          cases position with
          | zero => exact inside
          | succ position =>
              have near := within position (Nat.lt_of_succ_lt_succ listed)
              omega
      · cases fills

/-- An initializer that can be evaluated stands for what it gives. -/
theorem denotes_of_evaluate {globals : Array Value} {initial : Initializer} {value : Value}
    (known : ∀ index value, globals[index]? = some value → declarations.StartsAs index value)
    (evaluates : evaluate globals initial = .ok value) : declarations.Denotes initial value := by
  cases initial with
  | constant value =>
      cases evaluates
      exact .constant value
  | getGlobal index =>
      rw [evaluate] at evaluates
      split at evaluates
      · next found =>
          cases evaluates
          exact .getGlobal (known _ _ found)
      · cases evaluates

/-- A segment starts at the integer that its offset stands for, without its sign. -/
theorem segmentStart_eq_ok {globals : Array Value} {offset : Initializer} {start : Nat}
    (known : ∀ index value, globals[index]? = some value → declarations.StartsAs index value)
    (starts : segmentStart globals offset = .ok start) :
    ∃ bits : BitVec 32, declarations.Denotes offset (.i32 bits) ∧ start = bits.toNat := by
  obtain ⟨value, evaluates, starts⟩ := Binary.except_bind_eq_ok starts
  obtain ⟨bits, expected, same⟩ := Binary.except_bind_eq_ok starts
  cases same
  cases value with
  | i32 bits =>
      cases expected
      exact ⟨bits, denotes_of_evaluate known evaluates, rfl⟩
  | i64 bits | f32 bits | f64 bits => cases expected

/-! ## Limits -/

/-- **The last import provides a table or a memory**, if there is one. -/
theorem limits_of_provide {imports : List Import} {resources last : Resources}
    (provides : imports.foldlM Resources.provide resources = .ok last) :
    last.table = (imports.filterMap Import.table?).getLast?.or resources.table ∧
      last.memory = (imports.filterMap Import.memory?).getLast?.or resources.memory := by
  -- An import that comes later takes the place of this one.
  have later (others : List Limits) (limits : Limits) (own : Option Limits) :
      others.getLast?.or (some limits) = (limits :: others).getLast?.or own := by
    rw [List.getLast?_cons]
    cases others.getLast? <;> rfl
  induction imports generalizing resources with
  | nil =>
      cases provides
      exact ⟨rfl, rfl⟩
  | cons entry imports importsInduction =>
      rw [List.foldlM_cons] at provides
      obtain ⟨middle, provided, others⟩ := Binary.except_bind_eq_ok provides
      obtain ⟨table, memory⟩ := importsInduction others
      rw [table, memory]
      unfold Resources.provide at provided
      cases kind : entry.kind with
      | function index =>
          have noTable : entry.table? = none := by rw [Import.table?, kind]
          have noMemory : entry.memory? = none := by rw [Import.memory?, kind]
          rw [kind] at provided
          cases provided
          rw [List.filterMap_cons_none noTable, List.filterMap_cons_none noMemory]
          exact ⟨rfl, rfl⟩
      | table limits =>
          have isTable : entry.table? = some limits := by rw [Import.table?, kind]
          have noMemory : entry.memory? = none := by rw [Import.memory?, kind]
          rw [kind] at provided
          cases provided
          rw [List.filterMap_cons_some isTable, List.filterMap_cons_none noMemory]
          exact ⟨later _ _ _, rfl⟩
      | memory limits =>
          have noTable : entry.table? = none := by rw [Import.table?, kind]
          have isMemory : entry.memory? = some limits := by rw [Import.memory?, kind]
          rw [kind] at provided
          cases provided
          rw [List.filterMap_cons_none noTable, List.filterMap_cons_some isMemory]
          exact ⟨rfl, later _ _ _⟩
      | global type =>
          rw [kind] at provided
          cases provided

/-- A table is created with empty slots. -/
theorem createTable_eq_ok {bounds : Bounds} {limits : Option Limits} {table : Array (Option Nat)}
    (creates : createTable bounds limits = .ok table) :
    table = Array.replicate ((limits.map fun limits => limits.initial.toNat).getD 0) none := by
  unfold createTable at creates
  simp only at creates
  split at creates
  · cases creates
    rfl
  · cases creates

/-- A memory is created with pages of zeros. -/
theorem createMemory_eq_ok {limits : Option Limits} {memory : Memory}
    (creates : createMemory limits = .ok memory) :
    memory.bytes =
      Array.replicate ((limits.map fun limits => limits.initial.toNat).getD 0 * pageSize) 0 := by
  unfold createMemory at creates
  split at creates <;> exact congrArg Memory.bytes (Memory.create_eq_ok creates).2

/-! ## Instances -/

variable {assembly : Assembly} {bounds : Bounds} {store : Store}

/-- **Whether a store is as the segments and the globals say.** -/
structure Store.Initial (declarations : Declarations) (store : Store) : Prop where
  /-- There are as many globals as are defined. -/
  count : store.globals.size = declarations.globals.length
  /-- A global holds the value of its initializer, which has its type and may be that of a global
  before it. -/
  globals : ∀ index global, declarations.globals[index]? = some global →
    ∃ value, store.globals[index]? = some value ∧ value.type = global.type.content ∧
      declarations.StartsAs index value ∧
      ∀ earlier, global.initial = .getGlobal earlier →
        earlier.toNat < index ∧ store.globals[earlier.toNat]? = some value
  /-- The table has its size. -/
  slots : store.table.size = declarations.tableSize
  /-- A slot holds the last function that lies there, or is empty. -/
  table : declarations.Places (declarations.elements.map elementParts) none store.table
  /-- The memory has its size. -/
  size : store.memory.size = declarations.memorySize
  /-- A byte is the last one that lies there, or zero. -/
  memory : declarations.Places (declarations.data.map dataParts) 0 store.memory.bytes

/-- An initializer that reads a global reads one before its own. -/
theorem earlier_of_startsAs (imported : declarations.importedGlobalTypes = []) {index : Nat}
    {global : Global} {value : Value} {earlier : UInt32}
    (starts : declarations.StartsAs index value)
    (found : declarations.globals[index]? = some global)
    (initial : global.initial = .getGlobal earlier) :
    earlier.toNat < index ∧ declarations.StartsAs earlier.toNat value := by
  have place (position : Nat) : declarations.importedGlobalTypes.length + position = position := by
    rw [imported, List.length_nil, Nat.zero_add]
  cases starts with
  | constant foundHere initialHere =>
      rw [place] at found
      cases found.symm.trans foundHere
      cases initial.symm.trans initialHere
  | getGlobal foundHere initialHere before starts =>
      rw [place] at found
      cases found.symm.trans foundHere
      cases initial.symm.trans initialHere
      exact ⟨before, starts⟩

/-- **The globals of an initial store** hold the values of their initializers. -/
theorem exists_global_of_initialStore (initial : initialStore assembly bounds = .ok store)
    {index : Nat} {global : Global} (found : assembly.globals[index]? = some global) :
    ∃ value, store.globals[index]? = some value ∧ value.type = global.type.content ∧
      assembly.StartsAs index value ∧
      ∀ earlier, global.initial = .getGlobal earlier →
        earlier.toNat < index ∧ store.globals[earlier.toNat]? = some value := by
  obtain ⟨imported, types⟩ := types_of_initialStore initial
  have typed : store.globals[index]?.map Value.type = some global.type.content := by
    rw [← Array.getElem?_toList, ← List.getElem?_map, types, List.getElem?_map, found]
    rfl
  obtain ⟨value, holds, same⟩ := Option.map_eq_some_iff.mp typed
  have starts := startsAs_of_initialStore initial holds
  refine ⟨value, holds, same, starts, fun earlier reads => ?_⟩
  obtain ⟨before, startsEarlier⟩ := earlier_of_startsAs imported starts found reads
  -- The earlier global is there too, and starts with one value only.
  obtain ⟨inside, -⟩ := Array.getElem?_eq_some_iff.mp holds
  have holdsEarlier := Array.getElem?_eq_getElem (Nat.lt_trans before inside)
  rw [startsEarlier.unique (startsAs_of_initialStore initial holdsEarlier)]
  exact ⟨before, holdsEarlier⟩

/-- **What a segment does to a table**: its functions, which all fit, are put there. -/
theorem addElements_eq_ok {size : Nat} {globals : Array Value} {segment : ElementSegment}
    {table later : Array (Option Nat)} (small : size < 2 ^ 32)
    (known : ∀ index value, globals[index]? = some value → declarations.StartsAs index value)
    (sized : table.size = size) (adds : addElements globals table segment = .ok later) :
    later.size = size ∧ ∃ start : BitVec 32,
      declarations.Denotes segment.offset (.i32 start) ∧
        (∀ position < (elementParts segment).2.length, start.toNat + position < size) ∧
        PutInto start.toNat (elementParts segment).2 table later := by
  obtain ⟨_, starts, fills⟩ := Binary.except_bind_eq_ok adds
  obtain ⟨start, denotes, rfl⟩ := segmentStart_eq_ok known starts
  subst sized
  obtain ⟨same, within, putInto⟩ := fillTable_eq_ok small start.isLt fills
  rw [← List.length_map (fun function : UInt32 => some function.toNat)] at within
  exact ⟨same, start, denotes, within, putInto⟩

/-- **What a segment does to a memory**: its bytes, which fit, are put there. -/
theorem addData_eq_ok {size : Nat} {globals : Array Value} {segment : DataSegment}
    {memory later : Memory}
    (known : ∀ index value, globals[index]? = some value → declarations.StartsAs index value)
    (sized : memory.size = size) (adds : addData globals memory segment = .ok later) :
    later.size = size ∧ ∃ start : BitVec 32,
      declarations.Denotes segment.offset (.i32 start) ∧
        start.toNat + segment.bytes.length ≤ size ∧
        PutInto start.toNat segment.bytes memory.bytes later.bytes := by
  obtain ⟨_, starts, writes⟩ := Binary.except_bind_eq_ok adds
  obtain ⟨start, denotes, rfl⟩ := segmentStart_eq_ok known starts
  subst sized
  obtain ⟨fits, rfl⟩ := Memory.write_eq_ok writes
  exact ⟨Memory.size_overwrite _ _ _, start, denotes, fits, Memory.overwrite_cases fits⟩

/-- **An initial store is as the segments and the globals say**, and none of them is misplaced. -/
theorem initial_of_initialStore (initial : initialStore assembly bounds = .ok store) :
    store.Initial assembly.toDeclarations ∧ ¬assembly.Misplaces := by
  obtain ⟨resources, memory, table, provides, createsMemory, createsTable, -, fills, writes, -⟩ :=
    stages_of_initialStore initial
  have known (index : Nat) (value : Value) (found : store.globals[index]? = some value) :
      assembly.StartsAs index value := startsAs_of_initialStore initial found
  have imported := (globals_of_initialStore initial).1
  have count : store.globals.size = assembly.globals.length := by
    rw [(sound_of_initialStore initial).size_globals, Declarations.globalCount, imported,
      List.length_nil, Nat.zero_add]
  -- The table and the memory are created with the limits that are provided last.
  obtain ⟨tableLimits, memoryLimits⟩ := limits_of_provide provides
  have emptyTable : table = Array.replicate assembly.tableSize none := by
    rw [createTable_eq_ok createsTable, tableLimits]
    rfl
  have emptyMemory : memory.bytes = Array.replicate assembly.memorySize 0 := by
    rw [createMemory_eq_ok createsMemory, memoryLimits]
    rfl
  have sizeTable : table.size = assembly.tableSize := by rw [emptyTable, Array.size_replicate]
  have sizeMemory : memory.size = assembly.memorySize := by
    rw [Memory.size, emptyMemory, Array.size_replicate]
  obtain ⟨slots, functionsFit, functionsPlaced⟩ := foldlM_places id elementParts
    (fun start count => ∀ position < count, start + position < assembly.tableSize)
    (fun _ _ _ => addElements_eq_ok assembly.tableSize_lt known) sizeTable fills
  obtain ⟨size, bytesFit, bytesPlaced⟩ := foldlM_places Memory.bytes dataParts
    (fun start count => start + count ≤ assembly.memorySize)
    (fun _ _ _ => addData_eq_ok known) sizeMemory writes
  refine ⟨⟨count, fun _ _ => exists_global_of_initialStore initial, slots, ?_, size, ?_⟩, ?_⟩
  · exact Declarations.places_of_replicate emptyTable slots functionsPlaced
  · exact Declarations.places_of_replicate emptyMemory size bytesPlaced
  · intro misplaces
    cases misplaces with
    | imported member =>
        rw [imported] at member
        cases member
    | elementOffset member other =>
        obtain ⟨start, starts, -⟩ := functionsFit _ member
        exact other start starts
    | element member starts listed outside =>
        obtain ⟨start, startsToo, fits⟩ := functionsFit _ member
        cases startsToo.unique starts
        rw [elementParts, List.length_map] at fits
        exact absurd (fits _ listed) (Nat.not_lt_of_le outside)
    | dataOffset member other =>
        obtain ⟨start, starts, -⟩ := bytesFit _ member
        exact other start starts
    | data member starts outside =>
        obtain ⟨start, startsToo, fits⟩ := bytesFit _ member
        cases startsToo.unique starts
        exact absurd fits (Nat.not_le_of_lt outside)

/-- **Segments are placed exactly.** If an assembly without a start function has an instance, within
whatever resources, every global holds the value of its initializer, every slot of the table the
last function that lies there, and every byte of memory the last one that lies there. It has no
instance if a global is imported, if a segment does not start at an integer of 32 bits, if a
function would lie behind the table, or if a segment of the memory would end behind it. -/
theorem segments_are_placed (bounds : Bounds) (steps : Nat) (idle : assembly.start = none) :
    (∀ inst, instantiate steps assembly bounds = .returned inst →
      inst.store.Initial assembly.toDeclarations) ∧
    (assembly.Misplaces → ∃ trap, instantiate steps assembly bounds = .trapped trap) := by
  unfold instantiate
  rw [idle]
  cases initial : initialStore assembly bounds with
  | error trap => exact ⟨fun _ => nofun, fun _ => ⟨trap, rfl⟩⟩
  | ok store =>
      obtain ⟨placed, sound⟩ := initial_of_initialStore initial
      refine ⟨fun inst returns => ?_, fun misplaces => absurd misplaces sound⟩
      cases returns
      exact placed

/-- An assembly built by hand whose second segment, which starts where a global says, puts a
function in place of one of the first segment. The second global is that of the first. -/
def overlapping : Assembly where
  name := "overlapping"
  table := some ⟨3, none⟩
  globals := [⟨⟨.i32, false⟩, .constant (.i32 1)⟩, ⟨⟨.i32, true⟩, .getGlobal 0⟩]
  elements := [⟨.constant (.i32 0), [5, 6]⟩, ⟨.getGlobal 1, [7]⟩]
  data := [⟨.constant (.i32 0), []⟩]

/-- An assembly whose segment would go on in the first slot if slot numbers wrapped around. -/
def wrapping : Assembly :=
  { overlapping with elements := [⟨.constant (.i32 0xffffffff), [5, 6]⟩] }

/-- The later function is in the slot that both segments reach, and a segment that would wrap around
leaves no instance. -/
theorem segments_are_placed_overlapping :
    (∃ inst, instantiate 0 overlapping {} = .returned inst ∧
      inst.store.Initial overlapping.toDeclarations ∧
      inst.store.globals = #[.i32 1, .i32 1] ∧
      inst.store.table = #[some 5, some 7, none]) ∧
    ∃ trap, instantiate 0 wrapping {} = .trapped trap := by
  have made : instantiate 0 overlapping {} = .returned ⟨overlapping, {},
      ⟨⟨#[], 0⟩, #[.i32 1, .i32 1], #[some 5, some 7, none], 0⟩⟩ := rfl
  refine ⟨⟨_, made, (segments_are_placed {} 0 rfl).1 _ made, rfl, rfl⟩,
    (segments_are_placed {} 0 rfl).2 ?_⟩
  -- The first function of the segment already lies behind the table.
  exact .element (List.mem_singleton_self _) (.constant _) Nat.two_pos (by decide)

end Machine

end WasmCompiler
