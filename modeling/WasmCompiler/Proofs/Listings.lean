import WasmCompiler.Bytecode.Assembler
import WasmCompiler.Bytecode.Listing
import WasmCompiler.Proofs.Constants
import WasmCompiler.Proofs.Operators

/-! # Unique readability of listings

A listing is read back line by line, and a line word by word. Spaces, commas and parentheses are all
the same between words: a word tells by its mark, and a line by its words, what it stands for. Since
the text of a function is read as the function, no other function has this text.

* **`readLines_unlines`** — lines are told apart;
* **`Spells`** — a text is part of one line and has the given words;
* **`Op.bare_spec`**, **`Op.provided_spec`** — no two mnemonics clash, nor two names of what is
  called;
* **`Op.readable`** — an operation is read from the words of its text;
* **`reads_codeLines`** — and the code of a function from the lines after its header;
* **`splitLocals_lines`** — from which the locals are told apart;
* **`Function.read?_text`** — a function is read from its text;
* **`Function.eq_of_text_eq`** — functions of the same text are the same. -/

namespace WasmCompiler.Bytecode

open Value (isSeparator Solid)

/-! ## Words -/

/-- The words of a line. -/
def words (line : String) : List String :=
  ((line.toList.splitOnP isSeparator).filter (· ≠ [])).map String.ofList

/-- A separator is between the words before it and those after it. -/
theorem words_separated (front rest : List Char) {char : Char}
    (separator : isSeparator char = true) :
    words (String.ofList (front ++ char :: rest)) =
      words (String.ofList front) ++ words (String.ofList rest) := by
  simp only [words, String.toList_ofList, List.splitOnP_append_cons front rest separator,
    List.filter_append, List.map_append]

/-- Texts have the words of both if a separator is between them. -/
theorem words_append {front rest : String}
    (apart : front.toList.getLast?.any isSeparator = true ∨
      rest.toList.head?.any isSeparator = true) :
    words (front ++ rest) = words front ++ words rest := by
  have nothing : words (String.ofList []) = [] := by decide
  obtain ⟨front, rfl⟩ : ∃ list, String.ofList list = front := ⟨_, String.ofList_toList⟩
  obtain ⟨rest, rfl⟩ : ∃ list, String.ofList list = rest := ⟨_, String.ofList_toList⟩
  rw [String.toList_ofList, String.toList_ofList] at apart
  rw [← String.ofList_append]
  -- A separator on either side of the seam splits both texts there.
  rcases apart with ends | starts
  · cases last : front.getLast? with
    | none =>
      rw [last] at ends
      cases ends
    | some char =>
      rw [last] at ends
      obtain ⟨front, rfl⟩ := List.getLast?_eq_some_iff.mp last
      rw [List.append_assoc, List.singleton_append, words_separated _ _ ends,
        words_separated _ _ ends, nothing, List.append_nil]
  · cases head : rest.head? with
    | none =>
      rw [head] at starts
      cases starts
    | some char =>
      rw [head] at starts
      obtain ⟨rest, rfl⟩ := List.head?_eq_some_iff.mp head
      rw [words_separated _ _ starts, ← List.nil_append (char :: rest), words_separated _ _ starts,
        nothing, List.nil_append]

/-- Whether a text is part of one line and has these words. -/
structure Spells (text : String) (line : List String) : Prop where
  /-- The words of the text. -/
  words_eq : words text = line
  /-- The line does not end in the text. -/
  flat : '\n' ∉ text.toList

instance {text : String} {line : List String} : Decidable (Spells text line) :=
  decidable_of_iff (words text = line ∧ '\n' ∉ text.toList)
    ⟨fun both => ⟨both.1, both.2⟩, fun spells => ⟨spells.words_eq, spells.flat⟩⟩

/-- A text without separators is one word. -/
theorem spells_word {word : String} (solid : Solid word) (nonempty : word ≠ "") :
    Spells word [word] := by
  have filled : word.toList ≠ [] := by simpa using nonempty
  refine ⟨?_, fun newline => absurd (solid _ newline) (by decide)⟩
  rw [words, List.splitOnP_eq_singleton solid]
  simp [filled]

namespace Spells

variable {text rest : String} {front line : List String}

/-- Two texts in a row have the words of both, if a separator stands between. -/
theorem append (spells : Spells text front) (also : Spells rest line)
    (apart : text.toList.getLast?.any isSeparator = true ∨
      rest.toList.head?.any isSeparator = true) :
    Spells (text ++ rest) (front ++ line) := by
  refine ⟨by rw [words_append apart, spells.words_eq, also.words_eq], ?_⟩
  rw [String.toList_append, List.mem_append]
  exact not_or.mpr ⟨spells.flat, also.flat⟩

/-- Words that follow a text with a separator at its end. -/
theorem after {literal : String} (spells : Spells literal front) (also : Spells rest line)
    (ends : literal.toList.getLast?.any isSeparator = true) :
    Spells (literal ++ rest) (front ++ line) :=
  spells.append also (.inl ends)

/-- Words before and after a text with separators at both its ends. -/
theorem between {literal : String} {middle : List String} (before : Spells text front)
    (spells : Spells literal middle) (also : Spells rest line)
    (starts : literal.toList.head?.any isSeparator = true)
    (ends : literal.toList.getLast?.any isSeparator = true) :
    Spells (text ++ literal ++ rest) (front ++ middle ++ line) := by
  refine (before.append spells (.inr starts)).append also (.inl ?_)
  rw [String.toList_append, List.getLast?_append]
  cases last : literal.toList.getLast? with
  | none =>
    rw [last] at ends
    cases ends
  | some char =>
    rw [last] at ends
    exact ends

end Spells

/-- Words with commas between them. -/
theorem spells_intercalate {items : List String} (solid : ∀ item ∈ items, Solid item)
    (nonempty : ∀ item ∈ items, item ≠ "") : Spells (", ".intercalate items) items := by
  induction items with
  | nil =>
    rw [String.intercalate_nil]
    decide
  | cons item items hypothesis =>
    have word := spells_word (solid item List.mem_cons_self) (nonempty item List.mem_cons_self)
    have others := hypothesis (fun other member => solid other (List.mem_cons_of_mem _ member))
      fun other member => nonempty other (List.mem_cons_of_mem _ member)
    cases items with
    | nil => rwa [String.intercalate_singleton]
    | cons second items =>
      rw [String.intercalate_cons_cons]
      exact word.between (by decide : Spells ", " []) others (by decide) (by decide)

/-! ## Lines -/

/-- The lines of a text. -/
def readLines (text : String) : List String :=
  (text.toList.splitOnP (· == '\n')).map String.ofList

/-- **Lines are told apart**; an empty one follows the end of the last. -/
theorem readLines_unlines {lines : List String} (flat : ∀ line ∈ lines, '\n' ∉ line.toList) :
    readLines (unlines lines) = lines ++ [""] := by
  induction lines with
  | nil => decide
  | cons line lines hypothesis =>
    have first : ∀ char ∈ line.toList, (char == '\n') = false := by
      intro char member
      refine beq_eq_false_iff_ne.mpr ?_
      rintro rfl
      exact flat line List.mem_cons_self member
    have others := hypothesis fun other member => flat other (List.mem_cons_of_mem _ member)
    have text : (unlines (line :: lines)).toList =
        line.toList ++ '\n' :: (unlines lines).toList := by
      rw [unlines, List.map_cons, String.join_cons, String.toList_append, String.toList_append,
        List.append_assoc]
      rfl
    rw [readLines] at others ⊢
    rw [text, List.splitOnP_append_cons_of_forall_mem first _ rfl, List.map_cons, others,
      String.ofList_toList, List.cons_append]

/-! ## Numbers and names -/

/-- What follows a mark at the front of a word. -/
def marked? (mark word : String) : Option (List Char) :=
  if mark.toList.isPrefixOf word.toList then some (word.toList.drop mark.toList.length) else none

/-- A text behind its mark is read as the text. -/
theorem marked?_append (mark rest : String) : marked? mark (mark ++ rest) = some rest.toList := by
  rw [marked?, String.toList_append,
    if_pos (List.isPrefixOf_iff_prefix.mpr (List.prefix_append _ _)), List.drop_left]

/-- The number that follows a mark. -/
def numbered? (mark word : String) : Option Nat :=
  (marked? mark word).bind Floating.readDigits?

/-- A number behind its mark is read as the number. -/
theorem numbered?_append (mark : String) (number : Nat) :
    numbered? mark (mark ++ number.repr) = some number := by
  rw [numbered?, marked?_append, Option.bind_some, Nat.toList_repr, Floating.readDigits?_toDigits]

/-- A number without a mark is read as itself. -/
theorem numbered?_repr (number : Nat) : numbered? "" number.repr = some number := by
  rw [← numbered?_append "" number, String.empty_append]

/-- The value of a hexadecimal digit. -/
def hexDigitValue (digit : Char) : Nat :=
  if digit.isDigit then digit.toNat - '0'.toNat else digit.toNat - 'a'.toNat + 10

/-- The number spelled by hexadecimal digits. -/
def hexValue (digits : List Char) : Nat :=
  digits.foldl (fun value digit => 16 * value + hexDigitValue digit) 0

/-- A hexadecimal digit is read as its value. -/
theorem hexDigitValue_digitChar : ∀ digit < 16, hexDigitValue digit.digitChar = digit := by
  decide

/-- Hexadecimal digits are found from the last one on. -/
theorem toDigits_sixteen (number : Nat) : Nat.toDigits 16 number =
    (if number < 16 then [] else Nat.toDigits 16 (number / 16)) ++ [(number % 16).digitChar] := by
  rw [Nat.toDigits_eq_if (by decide)]
  split
  · next small => rw [Nat.mod_eq_of_lt small, List.nil_append]
  · rfl

/-- Hexadecimal digits are read as the number they are of. -/
theorem hexValue_toDigits (number : Nat) : hexValue (Nat.toDigits 16 number) = number := by
  induction number using Nat.strongRecOn with
  | ind number hypothesis =>
    rw [toDigits_sixteen, hexValue, List.foldl_append, List.foldl_cons, List.foldl_nil,
      hexDigitValue_digitChar _ (Nat.mod_lt _ (by decide)), ← hexValue.eq_def]
    split
    · next small =>
      rw [Nat.mod_eq_of_lt small]
      exact Nat.zero_add _
    · next large =>
      rw [hypothesis _ (by omega), Nat.div_add_mod]

/-- Leading zeros do not change what digits are read as. -/
theorem hexValue_replicate_zero (count : Nat) (digits : List Char) :
    hexValue (List.replicate count '0' ++ digits) = hexValue digits := by
  induction count with
  | zero => rfl
  | succ count hypothesis => exact hypothesis

/-- The position that a word names. -/
def position? (word : String) : Option Nat :=
  (marked? "IL_" word).map hexValue

/-- The text of a position is read as the position. -/
theorem position?_positionText (position : Nat) :
    position? (positionText position) = some position := by
  rw [position?, positionText, marked?_append, Option.map_some, String.toList_ofList,
    hexValue_replicate_zero, hexValue_toDigits]

/-- Hexadecimal digits have no separator among them. -/
theorem solid_toDigits (number : Nat) : Solid (String.ofList (Nat.toDigits 16 number)) := by
  induction number using Nat.strongRecOn with
  | ind number hypothesis =>
    have last : ∀ digit < 16, isSeparator digit.digitChar = false := by decide
    rw [toDigits_sixteen, String.ofList_append, Value.solid_append]
    refine ⟨?_, Value.solid_ofList.mpr fun char member => ?_⟩
    · split
      · decide
      · exact hypothesis _ (by omega)
    · rw [List.mem_singleton.mp member]
      exact last _ (Nat.mod_lt _ (by decide))

/-- Nor has the text of a position. -/
theorem solid_positionText (position : Nat) : Solid (positionText position) := by
  rw [positionText, String.ofList_append, Value.solid_append, Value.solid_append]
  exact ⟨by decide, Value.solid_digits (Floating.isDigit_replicate_zero _), solid_toDigits position⟩

/-- The text of a position is not empty. -/
theorem positionText_ne_empty (position : Nat) : positionText position ≠ "" := by
  intro empty
  have := congrArg String.toList empty
  rw [positionText, String.toList_append] at this
  cases this

/-- The type of a name. -/
def typeOfName? (name : String) : Option ValueType :=
  [ValueType.i32, .i64, .f32, .f64].find? (·.name = name)

/-- The name of a type is read as the type. -/
theorem typeOfName?_name (type : ValueType) : typeOfName? type.name = some type := by
  cases type <;> rfl

/-- What is read of every item is read of all of them. -/
theorem mapM_map_eq_some {α β : Type} {write : α → β} {read : β → Option α} {items : List α}
    (inverse : ∀ item ∈ items, read (write item) = some item) :
    (items.map write).mapM read = some items := by
  induction items with
  | nil => rfl
  | cons item items hypothesis =>
    rw [List.map_cons, List.mapM_cons, inverse item List.mem_cons_self,
      hypothesis fun other member => inverse other (List.mem_cons_of_mem _ member)]
    rfl

/-! ## Operations -/

namespace Op

/-- The operations that are a mnemonic and nothing else. -/
def bare : List (String × Op Nat) :=
  [("pop", .pop), ("select", .select), ("ret", .ret)] ++
    Comparison.all.map (fun op => (op.mnemonic, .compare op)) ++
    Arithmetic.all.map (fun op => (op.mnemonic, .arith op)) ++
    Conversion.all.map (fun op => (op.mnemonic, .convert op))

/-- The operations that call what the machine provides, without an offset. -/
def provided : List (String × Op Nat) :=
  [("CurrentMemory", .currentMemory), ("GrowMemory", .growMemory)] ++
    Intrinsic.all.map (fun op => (op.mnemonic, .intrinsic op)) ++
    Accessor.all.map (fun accessor => (accessor.name, .access accessor 0))

/-- The operation of a mnemonic and an operand. -/
def ofOperand? (mnemonic operand : String) : Option (Op Nat) :=
  match mnemonic with
  | "ldarg" => (numbered? "" operand).map .loadArg
  | "starg" => (numbered? "" operand).map .storeArg
  | "ldloc" => (numbered? "" operand).map .loadLocal
  | "stloc" => (numbered? "" operand).map .storeLocal
  | "ldsfld" => (numbered? "global" operand).map .loadGlobal
  | "stsfld" => (numbered? "global" operand).map .storeGlobal
  | "ldc.i4" => (Value.read? .i32 operand).map .const
  | "ldc.i8" => (Value.read? .i64 operand).map .const
  | "ldc.r4" => (Value.read? .f32 operand).map .const
  | "ldc.r8" => (Value.read? .f64 operand).map .const
  | "br" => (position? operand).map .jump
  | "brtrue" => (position? operand).map .jumpIf
  | "brfalse" => (position? operand).map .jumpUnless
  | "call" => ((numbered? "func" operand).map .call).or (provided.lookup operand)
  | "calli" => (numbered? "type" operand).map .callIndirect
  | "throw" => some .trap
  | _ => none

/-- The switch over positions, of which the last one is the fallback. -/
def ofPositions? (positions : List String) : Option (Op Nat) := do
  let targets ← positions.mapM position?
  return .switch targets.dropLast (← targets.getLast?)

/-- The unwinding of two counts. -/
def ofCounts? (drop keep : String) : Option (Op Nat) := do
  return .unwind (← numbered? "" drop) (← numbered? "" keep)

/-- The access of that name at an offset. -/
def ofOffset? (name offset : String) : Option (Op Nat) :=
  match provided.lookup name with
  | some (.access accessor _) => (numbered? "offset=" offset).map (.access accessor)
  | _ => none

/-- The operation that words spell. -/
def ofWords? : List String → Option (Op Nat)
  | "switch" :: positions => ofPositions? positions
  | [mnemonic] => bare.lookup mnemonic
  | [mnemonic, operand] => ofOperand? mnemonic operand
  | ["call", name, offset] => ofOffset? name offset
  | ["unwind", drop, "keep", keep] => ofCounts? drop keep
  | _ => none

/-- What is a mnemonic is read as the operation. -/
theorem bare_spec : ∀ entry ∈ bare, Solid entry.1 ∧ entry.1 ≠ "" ∧ entry.2.text = entry.1 ∧
    ofWords? [entry.1] = some entry.2 := by
  decide +kernel

/-- What names something provided names nothing else, and no function of the module. -/
theorem provided_spec : ∀ entry ∈ provided, Solid entry.1 ∧ entry.1 ≠ "" ∧
    entry.2.text = "call " ++ entry.1 ∧ numbered? "func" entry.1 = none ∧
      provided.lookup entry.1 = some entry.2 := by
  decide +kernel

/-- Whether an operation is a constant that is not a number. -/
def isNan : Op Nat → Bool
  | .const value => value.isNan
  | _ => false

/-- Whether an operation is read from the words of its text. -/
def Readable (op : Op Nat) : Prop :=
  ∃ line, Spells op.text line ∧ ofWords? line = some op

/-- An operation of one word is read from it. -/
theorem readable_bare (word : String) {op : Op Nat} (member : (word, op) ∈ bare) :
    op.Readable := by
  obtain ⟨solid, nonempty, text, read⟩ := bare_spec _ member
  refine ⟨[word], ?_, read⟩
  rw [text]
  exact spells_word solid nonempty

/-- An operation that the environment provides is read from its name. -/
theorem readable_provided (word : String) {op : Op Nat} (member : (word, op) ∈ provided) :
    op.Readable := by
  obtain ⟨solid, nonempty, text, undefined, named⟩ := provided_spec _ member
  refine ⟨["call", word], ?_, ?_⟩
  · rw [text]
    exact (by decide : Spells "call " ["call"]).after (spells_word solid nonempty) (by decide)
  · show ((numbered? "func" word).map Op.call).or (provided.lookup word) = some op
    rw [undefined, named]
    rfl

/-- An operand behind a mnemonic. -/
theorem readable_operand (literal mnemonic operand : String) {op : Op Nat}
    (text : op.text = literal ++ operand) (spells : Spells literal [mnemonic])
    (ends : literal.toList.getLast?.any isSeparator = true) (solid : Solid operand)
    (nonempty : operand ≠ "") (read : ofWords? [mnemonic, operand] = some op) : op.Readable := by
  refine ⟨[mnemonic, operand], ?_, read⟩
  rw [text]
  exact spells.after (spells_word solid nonempty) ends

/-- A number behind a mark is not an empty text. -/
theorem append_repr_ne_empty (mark : String) (number : Nat) : mark ++ number.repr ≠ "" := by
  intro empty
  have digits := congrArg String.toList empty
  rw [String.toList_append, Nat.toList_repr] at digits
  exact Nat.toDigits_ne_nil (List.append_eq_nil_iff.mp digits).2

/-- A number behind a mark, behind a mnemonic. -/
theorem readable_numbered (literal mnemonic mark : String) (number : Nat) {op : Op Nat}
    (text : op.text = literal ++ mark ++ number.repr) (spells : Spells literal [mnemonic])
    (ends : literal.toList.getLast?.any isSeparator = true) (solid : Solid mark)
    (read : ∀ operand, numbered? mark operand = some number →
      ofWords? [mnemonic, operand] = some op) : op.Readable := by
  refine readable_operand literal mnemonic (mark ++ number.repr) ?_ spells ends
    (Value.solid_append.mpr ⟨solid, Value.solid_repr number⟩) (append_repr_ne_empty mark number)
    (read _ (numbered?_append mark number))
  rw [text, String.append_assoc]

/-- A constant behind a mnemonic for its type. -/
theorem readable_const {value : Value} (number : value.isNan = false) :
    (Op.const value : Op Nat).Readable := by
  have read : (Value.read? value.type value.text).map Op.const = some (.const value : Op Nat) :=
    congrArg (Option.map Op.const) (Value.read?_text number)
  have solid := Value.solid_text value
  have nonempty : value.text ≠ "" := by
    intro empty
    rw [empty] at read
    cases value <;> cases read
  cases value with
  | i32 bits =>
    exact readable_operand "ldc.i4 " "ldc.i4" _ rfl (by decide) (by decide) solid nonempty read
  | i64 bits =>
    exact readable_operand "ldc.i8 " "ldc.i8" _ rfl (by decide) (by decide) solid nonempty read
  | f32 bits =>
    exact readable_operand "ldc.r4 " "ldc.r4" _ rfl (by decide) (by decide) solid nonempty read
  | f64 bits =>
    exact readable_operand "ldc.r8 " "ldc.r8" _ rfl (by decide) (by decide) solid nonempty read

/-- The positions of a switch, of which the last one is the fallback. -/
theorem readable_switch (targets : List Nat) (fallback : Nat) :
    (Op.switch targets fallback).Readable := by
  refine ⟨"switch" :: (targets ++ [fallback]).map positionText, ?_, ?_⟩
  · have positions : Spells (", ".intercalate (targets.map positionText))
        (targets.map positionText) := by
      refine spells_intercalate ?_ ?_
      · exact List.forall_mem_map.mpr fun target _ => solid_positionText target
      · exact List.forall_mem_map.mpr fun target _ => positionText_ne_empty target
    have last := spells_word (solid_positionText fallback) (positionText_ne_empty fallback)
    have line : "switch" :: (targets ++ [fallback]).map positionText =
        ["switch"] ++ targets.map positionText ++ [] ++ [positionText fallback] := by simp
    rw [line]
    exact ((by decide : Spells "switch (" ["switch"]).after positions (by decide)).between
      (by decide : Spells ") " []) last (by decide) (by decide)
  · have read : ((targets ++ [fallback]).map positionText).mapM position? =
        some (targets ++ [fallback]) :=
      mapM_map_eq_some fun target _ => position?_positionText target
    show ofPositions? ((targets ++ [fallback]).map positionText) = _
    rw [ofPositions?, read]
    simp

/-- An access, with its offset if there is one. -/
theorem readable_access (accessor : Accessor) (offset : Nat) :
    (Op.access accessor offset : Op Nat).Readable := by
  have member : (accessor.name, Op.access accessor 0) ∈ provided :=
    List.mem_append_right _ (List.mem_map_of_mem (Accessor.mem_all accessor))
  by_cases absent : offset = 0
  · rw [absent]
    exact readable_provided _ member
  · obtain ⟨solid, nonempty, -, -, named⟩ := provided_spec _ member
    refine ⟨["call", accessor.name, "offset=" ++ offset.repr], ?_, ?_⟩
    · have text : (Op.access accessor offset : Op Nat).text =
          "call " ++ accessor.name ++ " " ++ ("offset=" ++ offset.repr) := by
        refine (if_neg absent).trans ?_
        show "call " ++ accessor.name ++ (" " ++ "offset=") ++ offset.repr = _
        simp only [String.append_assoc]
      have mark : Spells ("offset=" ++ offset.repr) ["offset=" ++ offset.repr] :=
        spells_word (Value.solid_append.mpr ⟨by decide, Value.solid_repr offset⟩)
          (append_repr_ne_empty _ _)
      rw [text]
      exact ((by decide : Spells "call " ["call"]).after (spells_word solid nonempty)
        (by decide)).between (by decide : Spells " " []) mark (by decide) (by decide)
    · show ofOffset? accessor.name ("offset=" ++ offset.repr) = _
      rw [ofOffset?, named, numbered?_append]
      rfl

/-- The two counts of an unwinding. -/
theorem readable_unwind (drop keep : Nat) : (Op.unwind drop keep : Op Nat).Readable := by
  refine ⟨["unwind", drop.repr, "keep", keep.repr], ?_, ?_⟩
  · have front := (by decide : Spells "unwind " ["unwind"]).after
      (spells_word (Value.solid_repr drop) Nat.repr_ne_empty) (by decide)
    exact front.between (by decide : Spells " keep " ["keep"])
      (spells_word (Value.solid_repr keep) Nat.repr_ne_empty) (by decide) (by decide)
  · show ofCounts? drop.repr keep.repr = _
    rw [ofCounts?, numbered?_repr, numbered?_repr]
    rfl

/-- **An operation is read from the words of its text**, whatever its form. -/
theorem readable {op : Op Nat} (number : op.isNan = false) : op.Readable := by
  cases op with
  | loadArg index =>
    exact readable_numbered "ldarg " "ldarg" "" index rfl (by decide) (by decide) (by decide)
      fun operand read => congrArg (Option.map Op.loadArg) read
  | storeArg index =>
    exact readable_numbered "starg " "starg" "" index rfl (by decide) (by decide) (by decide)
      fun operand read => congrArg (Option.map Op.storeArg) read
  | loadLocal index =>
    exact readable_numbered "ldloc " "ldloc" "" index rfl (by decide) (by decide) (by decide)
      fun operand read => congrArg (Option.map Op.loadLocal) read
  | storeLocal index =>
    exact readable_numbered "stloc " "stloc" "" index rfl (by decide) (by decide) (by decide)
      fun operand read => congrArg (Option.map Op.storeLocal) read
  | loadGlobal index =>
    exact readable_numbered "ldsfld " "ldsfld" "global" index rfl (by decide) (by decide)
      (by decide) fun operand read => congrArg (Option.map Op.loadGlobal) read
  | storeGlobal index =>
    exact readable_numbered "stsfld " "stsfld" "global" index rfl (by decide) (by decide)
      (by decide) fun operand read => congrArg (Option.map Op.storeGlobal) read
  | const value => exact readable_const number
  | pop => exact readable_bare "pop" (by decide)
  | select => exact readable_bare "select" (by decide)
  | compare op => exact readable_bare op.mnemonic (by cases op <;> decide)
  | arith op => exact readable_bare op.mnemonic (by cases op <;> decide)
  | convert op => exact readable_bare op.mnemonic (by cases op <;> decide)
  | intrinsic op => exact readable_provided op.mnemonic (by cases op <;> decide)
  | jump target =>
    exact readable_operand "br " "br" _ rfl (by decide) (by decide) (solid_positionText target)
      (positionText_ne_empty target)
      (congrArg (Option.map Op.jump) (position?_positionText target))
  | jumpIf target =>
    exact readable_operand "brtrue " "brtrue" _ rfl (by decide) (by decide)
      (solid_positionText target) (positionText_ne_empty target)
      (congrArg (Option.map Op.jumpIf) (position?_positionText target))
  | jumpUnless target =>
    exact readable_operand "brfalse " "brfalse" _ rfl (by decide) (by decide)
      (solid_positionText target) (positionText_ne_empty target)
      (congrArg (Option.map Op.jumpUnless) (position?_positionText target))
  | switch targets fallback => exact readable_switch targets fallback
  | unwind drop keep => exact readable_unwind drop keep
  | access accessor offset => exact readable_access accessor offset
  | currentMemory => exact readable_provided "CurrentMemory" (by decide)
  | growMemory => exact readable_provided "GrowMemory" (by decide)
  | call function =>
    refine readable_numbered "call " "call" "func" function rfl (by decide) (by decide) (by decide)
      fun operand read => ?_
    show ((numbered? "func" operand).map Op.call).or _ = _
    rw [read]
    rfl
  | callIndirect typeIndex =>
    exact readable_numbered "calli " "calli" "type" typeIndex rfl (by decide) (by decide)
      (by decide) fun operand read => congrArg (Option.map Op.callIndirect) read
  | ret => exact readable_bare "ret" (by decide)
  | trap => exact ⟨["throw", "unreachable"], by decide, rfl⟩

end Op

/-! ## Functions -/

/-- The signature that words spell. -/
def signatureOfWords? (line : List String) : Option Signature := do
  let params ← (line.takeWhile (· ≠ "->")).mapM typeOfName?
  let results ← ((line.dropWhile (· ≠ "->")).drop 1).mapM typeOfName?
  return ⟨params, results⟩

/-- The words of a signature. -/
def signatureWords (signature : Signature) : List String :=
  signature.params.map ValueType.name ++
    signature.result?.toList.flatMap fun result => ["->", result.name]

/-- A list of types has their names for its words. -/
theorem spells_names (types : List ValueType) :
    Spells (", ".intercalate (types.map ValueType.name)) (types.map ValueType.name) := by
  refine spells_intercalate ?_ ?_
  · exact List.forall_mem_map.mpr fun type _ => by cases type <;> decide
  · exact List.forall_mem_map.mpr fun type _ => by cases type <;> decide

/-- The names of types are read as the types. -/
theorem mapM_names (types : List ValueType) :
    (types.map ValueType.name).mapM typeOfName? = some types :=
  mapM_map_eq_some fun type _ => typeOfName?_name type

/-- A signature has the words of its parameters and results. -/
theorem spells_signature (signature : Signature) :
    Spells signature.text (signatureWords signature) := by
  have params := ((by decide : Spells "(" []).after (spells_names signature.params)
    (by decide)).append (by decide : Spells ")" []) (.inr (by decide))
  rw [List.nil_append, List.append_nil] at params
  rw [Signature.text, signatureWords]
  cases signature.result? with
  | none =>
    rw [Option.toList_none, List.flatMap_nil, List.append_nil]
    exact params
  | some result =>
    have word : Spells result.name [result.name] := by cases result <;> decide
    have whole := params.between (by decide : Spells " -> " ["->"]) word (by decide) (by decide)
    rwa [List.append_assoc] at whole

/-- **The words of a signature are read as it**, if it has at most one result. -/
theorem signatureOfWords?_words {signature : Signature} (single : signature.results.length ≤ 1) :
    signatureOfWords? (signatureWords signature) = some signature := by
  obtain ⟨params, results⟩ := signature
  have names : ∀ name ∈ params.map ValueType.name, decide (name ≠ "->") = true :=
    List.forall_mem_map.mpr fun type _ => by cases type <;> decide
  rw [signatureOfWords?, signatureWords, List.takeWhile_append_of_pos names,
    List.dropWhile_append_of_pos names]
  match results, single with
  | [], _ =>
    show ((params.map ValueType.name ++ []).mapM typeOfName?).bind _ = _
    rw [List.append_nil, mapM_names]
    rfl
  | [result], _ =>
    show ((params.map ValueType.name ++ []).mapM typeOfName?).bind _ = _
    rw [List.append_nil, mapM_names]
    show (([result].map ValueType.name).mapM typeOfName?).bind _ = _
    rw [mapM_names]
    rfl

/-- The locals that the first line of a body declares, if it does, and the lines of the code. -/
def splitLocals : List (List String) → List String × List (List String)
  | (".locals" :: types) :: code => (types, code)
  | code => ([], code)

/-- The function that lines of words spell. -/
def ofLines? : List (List String) → Option Function
  | (_ :: name :: signature) :: _ :: body => do
      let index ← numbered? "func" name
      let signature ← signatureOfWords? signature
      let locals ← (splitLocals body).1.mapM typeOfName?
      let code ← ((splitLocals body).2.takeWhile (· ≠ ["\x7d"])).mapM fun line =>
        Op.ofWords? line.tail
      return ⟨index, signature, locals, code.toArray⟩
  | _ => none

/-- **The function that a text spells.** -/
def Function.read? (text : String) : Option Function :=
  ofLines? ((readLines text).map words)

/-- The first line of a function. -/
theorem spells_header (function : Function) :
    Spells (s!".method func{function.index} " ++ function.signature.text)
      (".method" :: ("func" ++ function.index.repr) :: signatureWords function.signature) := by
  have index : Spells ("func" ++ function.index.repr) ["func" ++ function.index.repr] :=
    spells_word (Value.solid_append.mpr ⟨by decide, Value.solid_repr _⟩)
      (Op.append_repr_ne_empty _ _)
  have front := (by decide : Spells ".method " [".method"]).after index (by decide)
  have whole := front.between (by decide : Spells " " []) (spells_signature function.signature)
    (by decide) (by decide)
  rw [← String.append_assoc] at whole
  exact whole

/-- The line that declares locals. -/
theorem spells_locals (locals : List ValueType) :
    Spells ("  .locals (" ++ ", ".intercalate (locals.map ValueType.name) ++ ")")
      (".locals" :: locals.map ValueType.name) := by
  have whole := ((by decide : Spells "  .locals (" [".locals"]).after (spells_names locals)
    (by decide)).append (by decide : Spells ")" []) (.inr (by decide))
  rwa [List.append_nil] at whole

/-- The line of an operation. -/
theorem spells_codeLine (position : Nat) {op : Op Nat} {line : List String}
    (spells : Spells op.text line) :
    Spells ("  " ++ positionText position ++ ": " ++ op.text)
      ((positionText position ++ ":") :: line) := by
  have place : Spells (positionText position ++ ":") [positionText position ++ ":"] := by
    refine spells_word (Value.solid_append.mpr ⟨solid_positionText position, by decide⟩) ?_
    intro empty
    have chars := congrArg String.toList empty
    rw [String.toList_append] at chars
    cases (List.append_eq_nil_iff.mp chars).2
  have front := (by decide : Spells "  " []).after place (by decide)
  have whole := front.between (by decide : Spells " " []) spells (by decide) (by decide)
  have text : "  " ++ positionText position ++ ": " ++ op.text =
      "  " ++ (positionText position ++ ":") ++ " " ++ op.text := by
    show "  " ++ positionText position ++ (":" ++ " ") ++ op.text = _
    simp only [String.append_assoc]
  rw [text]
  exact whole

/-- The line of an operation is neither the declaration of locals nor the end of the function. -/
theorem place_ne (position : Nat) :
    positionText position ++ ":" ≠ ".locals" ∧ positionText position ++ ":" ≠ "\x7d" := by
  constructor
  all_goals
    intro same
    have chars := congrArg String.toList same
    rw [positionText, String.append_assoc, String.toList_append] at chars
    cases chars

/-- **The lines of a code are read as the code.** -/
theorem reads_codeLines (position : Nat) (code : List (Op Nat))
    (numbers : ∀ op ∈ code, op.isNan = false) :
    (∀ line ∈ codeLines position code, '\n' ∉ line.toList) ∧
      (∀ line ∈ (codeLines position code).map words,
        ∃ place rest, line = (positionText place ++ ":") :: rest) ∧
      ((codeLines position code).map words).mapM (fun line => Op.ofWords? line.tail) =
        some code := by
  induction code generalizing position with
  | nil => exact ⟨nofun, nofun, rfl⟩
  | cons op code hypothesis =>
    obtain ⟨number, numbers⟩ := List.forall_mem_cons.mp numbers
    obtain ⟨flat, places, read⟩ := hypothesis (position + 1) numbers
    obtain ⟨line, spells, readOp⟩ := Op.readable number
    have spells := spells_codeLine (UInt32.ofNat position).toNat spells
    rw [codeLines]
    refine ⟨List.forall_mem_cons.mpr ⟨spells.flat, flat⟩, ?_, ?_⟩
    · rw [List.map_cons, spells.words_eq]
      exact List.forall_mem_cons.mpr ⟨⟨_, _, rfl⟩, places⟩
    · rw [List.map_cons, spells.words_eq, List.mapM_cons, List.tail_cons, readOp, read]
      rfl

/-- The declaration of the locals has no line break within a line. -/
theorem flat_localsLines (locals : List ValueType) :
    ∀ line ∈ localsLines locals, '\n' ∉ line.toList := by
  rw [localsLines]
  split
  · exact nofun
  · exact List.forall_mem_singleton.mpr (spells_locals locals).flat

/-- **The locals are told apart from the code**, also where no line declares them. -/
theorem splitLocals_lines (locals : List ValueType) {code : List (List String)}
    (places : ∀ line ∈ code.head?, line.head? ≠ some ".locals") :
    splitLocals ((localsLines locals).map words ++ code) =
      (locals.map ValueType.name, code) := by
  rw [localsLines]
  cases locals with
  | nil =>
    show splitLocals code = ([], code)
    unfold splitLocals
    split
    · exact absurd rfl (places _ rfl)
    · rfl
  | cons type locals =>
    rw [List.isEmpty_cons, if_neg Bool.false_ne_true, List.map_singleton,
      (spells_locals (type :: locals)).words_eq]
    rfl

namespace Function

variable {function : Function}

/-- Nor has a function whose code has none. -/
theorem flat_lines (code : ∀ line ∈ codeLines 0 function.code.toList, '\n' ∉ line.toList) :
    ∀ line ∈ function.lines, '\n' ∉ line.toList := by
  simp only [lines, List.forall_mem_append, List.forall_mem_cons]
  refine ⟨⟨⟨⟨(spells_header function).flat, by decide, nofun⟩, flat_localsLines _⟩, code⟩,
    by decide, nofun⟩

/-- **The words of a function, line by line**: its head, its locals and its code. -/
theorem words_lines : function.lines.map words =
    (".method" :: ("func" ++ function.index.repr) :: signatureWords function.signature) ::
      ["\x7b"] :: ((localsLines function.locals).map words ++
        ((codeLines 0 function.code.toList).map words ++ [["\x7d"]])) := by
  have opening : words "\x7b" = ["\x7b"] := by decide
  have closing : words "\x7d" = ["\x7d"] := by decide
  simp only [lines, List.map_append, List.map_cons, List.map_nil,
    (spells_header function).words_eq, opening, closing, List.cons_append, List.nil_append,
    List.append_assoc]

/-- **The text of a function spells the function.** -/
theorem read?_text (single : function.signature.results.length ≤ 1)
    (numbers : ∀ op ∈ function.code, op.isNan = false) :
    read? function.text = some function := by
  obtain ⟨flat, places, readCode⟩ := reads_codeLines 0 function.code.toList
    fun op member => numbers op (Array.mem_toList_iff.mp member)
  have inner : ∀ line ∈ (codeLines 0 function.code.toList).map words,
      decide (line ≠ ["\x7d"]) = true := by
    intro line member
    obtain ⟨place, rest, rfl⟩ := places line member
    exact decide_eq_true fun same => (place_ne place).2 (List.cons.inj same).1
  -- What follows the locals does not look like them, even if there is no code.
  have undeclared : ∀ line ∈ ((codeLines 0 function.code.toList).map words ++
      [["\x7d"], []]).head?, line.head? ≠ some ".locals" := by
    intro line head
    rcases List.mem_append.mp (List.mem_of_mem_head? head) with member | member
    · obtain ⟨place, rest, rfl⟩ := places line member
      exact fun same => (place_ne place).1 (Option.some.inj same)
    · exact (by decide : ∀ line ∈ [["\x7d"], []], line.head? ≠ some ".locals") line member
  have text : (readLines function.text).map words =
      (".method" :: ("func" ++ function.index.repr) :: signatureWords function.signature) ::
        ["\x7b"] :: ((localsLines function.locals).map words ++
          ((codeLines 0 function.code.toList).map words ++ [["\x7d"], []])) := by
    have empty : words "" = [] := by decide
    rw [Function.text, readLines_unlines (flat_lines flat), List.map_append, words_lines,
      List.map_singleton, empty]
    simp only [List.cons_append, List.append_assoc, List.nil_append]
  have codeWords : ((codeLines 0 function.code.toList).map words ++ [["\x7d"], []]).takeWhile
      (· ≠ ["\x7d"]) = (codeLines 0 function.code.toList).map words := by
    rw [List.takeWhile_append_of_pos inner]
    exact List.append_nil _
  rw [read?, text, ofLines?, numbered?_append, signatureOfWords?_words single,
    splitLocals_lines _ undeclared, codeWords, mapM_names, readCode]
  rfl

/-- **The text of a function determines the function**: its index, its signature, its locals and
its code, down to the bits of the constants. A second result would not be shown, and constants that
are not numbers look alike. -/
theorem eq_of_text_eq {first second : Function}
    (firstSingle : first.signature.results.length ≤ 1)
    (secondSingle : second.signature.results.length ≤ 1)
    (firstNumbers : ∀ op ∈ first.code, op.isNan = false)
    (secondNumbers : ∀ op ∈ second.code, op.isNan = false) (same : first.text = second.text) :
    first = second := by
  have readFirst := read?_text firstSingle firstNumbers
  have readSecond := read?_text secondSingle secondNumbers
  rw [same] at readFirst
  exact Option.some.inj (readFirst.symm.trans readSecond)

/-- A function with a branch table, an access at an offset and a constant that is not whole. -/
def listed : Function where
  index := 3
  signature := ⟨[.i32, .f64], [.i64]⟩
  locals := [.f32]
  code := #[.loadArg 0, .switch [4, 7] 2, .const (.f64 0xBFE0000000000000),
    .access (.store .f64) 16, .jump 7, .unwind 2 1, .const (.i64 5), .ret]

/-- The text of that function. -/
def listing : String :=
  unlines [".method func3 (i32, f64) -> i64", "\x7b", "  .locals (f32)",
    "  IL_0000: ldarg 0", "  IL_0001: switch (IL_0004, IL_0007) IL_0002",
    "  IL_0002: ldc.r8 -0.5", "  IL_0003: call StoreDouble offset=16", "  IL_0004: br IL_0007",
    "  IL_0005: unwind 2 keep 1", "  IL_0006: ldc.i8 5", "  IL_0007: ret", "\x7d"]

/-- The function before its labels have become places. -/
def draft : OpenFunction where
  index := 3
  signature := ⟨[.i32, .f64], [.i64]⟩
  locals := #[.f32]
  code := #[.loadArg 0, .switch [1, 2] 0, .const (.f64 0xBFE0000000000000),
    .access (.store .f64) 16, .jump 2, .unwind 2 1, .const (.i64 5), .ret]
  places := #[some 2, some 4, some 7]

/-- A function that is built from labels and has this listing is this function. -/
theorem eq_of_text_eq_listed : listed.text = listing ∧
    ∃ closed, draft.close = .ok closed ∧ closed.text = listing ∧ closed = listed := by
  have text : listed.text = listing := by decide +kernel
  have built : draft.close = .ok ⟨3, _, _, _⟩ := rfl
  refine ⟨text, _, built, text, ?_⟩
  exact eq_of_text_eq (by decide) (by decide) (by decide) (by decide) rfl

end Function

end WasmCompiler.Bytecode
