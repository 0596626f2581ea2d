import WasmCompiler.Proofs.Offsets

/-! # Readers stay in their windows

A reader is opened on a window of some bytes, and readers of smaller windows are split off it. What
a reader gives is what stands in its window from its position on, wherever the window lies, and no
call moves it back or beyond its end, also not one that fails.

* **`Decoder.SelfContained`** — what is read is known from the bytes that are used up;
* **`Decoder.Stops`** — what fails has moved forward, and its error shows between the two places;
* **`Readers.Serves`** — all that one call may do to the readers that are open;
* **`Readers.windows_are_faithful`** — whatever is called, readers stand for their windows. -/

namespace WasmCompiler

namespace Binary

open Stateful Varint

/-! ## Parts of bytes -/

/-- A part of bytes is as long as its bounds are apart. -/
theorem length_extract {bytes : List UInt8} {start stop : Nat} (inside : stop ≤ bytes.length) :
    (bytes.extract start stop).length = stop - start := by
  rw [List.length_take, List.length_drop]
  omega

/-- A part ends where the next one starts. -/
theorem extract_append (bytes : List UInt8) {start middle stop : Nat} (near : start ≤ middle)
    (far : middle ≤ stop) :
    bytes.extract start middle ++ bytes.extract middle stop = bytes.extract start stop := by
  have whole : stop - start = (middle - start) + (stop - middle) := by omega
  have next : middle = start + (middle - start) := by omega
  show _ ++ List.take (stop - middle) (List.drop middle bytes) = _
  rw [List.extract_eq_take_drop, List.extract_eq_take_drop, whole, List.take_add, List.drop_drop,
    ← next]

/-- The front of a part. -/
theorem take_extract (bytes : List UInt8) {start stop count : Nat} (short : start + count ≤ stop) :
    (bytes.extract start stop).take count = bytes.extract start (start + count) := by
  rw [List.extract_eq_take_drop, List.extract_eq_take_drop, List.take_take]
  congr 1
  omega

/-! ## Decoders -/

namespace Decoder

variable {α β : Type}

/-- **Whether a decoder looks at nothing but what it uses up**: the bytes between its two places are
read as the same value at any position and in front of any others. -/
def SelfContained (decoder : Decoder α) : Prop :=
  Admits decoder fun bytes value => ∀ position, Reads decoder position bytes value

/-- A byte is read by itself. -/
theorem selfContained_byte : SelfContained byte :=
  admits_byte.imp fun _ first same position => same ▸ reads_byte position first

/-- So are several bytes. -/
theorem selfContained_bytes (count : Nat) : SelfContained (bytes count) :=
  (admits_bytes count).imp fun _ _ ⟨length, same⟩ position =>
    same.symm ▸ reads_bytes position length

/-- So is a word of 32 bits. -/
theorem selfContained_word32 : SelfContained word32 :=
  admits_word32.imp fun _ _ ⟨length, same⟩ position => same ▸ reads_word32 position length

/-- So is one of 64 bits. -/
theorem selfContained_word64 : SelfContained word64 :=
  admits_word64.imp fun _ _ ⟨length, same⟩ position => same ▸ reads_word64 position length

/-- So is an integer without sign. -/
theorem selfContained_unsigned (bits : Nat) : SelfContained (unsigned bits) := by
  refine admits_varint fun input value read => ?_
  obtain ⟨numeral, rest, rfl, isNumeral, width, short, spelled, fits⟩ :=
    exists_numeral_of_readUnsigned read
  refine ⟨numeral, rest, rfl, ?_, fun position =>
    reads_unsigned width position ⟨isNumeral, short, spelled, fits⟩⟩
  rw [readUnsigned_numeral width isNumeral short rest]

/-- So is one with sign. -/
theorem selfContained_signed (bits : Nat) : SelfContained (signed bits) := by
  refine admits_varint fun input value read => ?_
  obtain ⟨numeral, rest, rfl, isNumeral, width, short, spelled, fits⟩ :=
    exists_numeral_of_readSigned read
  refine ⟨numeral, rest, rfl, ?_, fun position =>
    reads_signed width position ⟨isNumeral, short, spelled, fits⟩⟩
  rw [readSigned_numeral width isNumeral short rest]

/-- A change of the value looks at no more bytes. -/
theorem SelfContained.map {decoder : Decoder α} (contained : SelfContained decoder)
    (change : α → β) : SelfContained (do return change (← decoder)) :=
  Admits.map contained change fun _ _ reads position => (reads position).map change

/-- An index is read by itself. -/
theorem selfContained_unsigned32 : SelfContained unsigned32 :=
  (selfContained_unsigned 32).map _

/-- So is a name. -/
theorem selfContained_name : SelfContained name := by
  refine Admits.bind selfContained_unsigned32 fun count front counted => ?_
  refine .afterPosition fun offset => (admits_bytes count.toNat).bind ?_
  rintro text _ ⟨length, rfl⟩
  split
  · next name found =>
      refine admits_pure fun position => ?_
      rw [List.append_nil]
      refine (counted position).bind (.afterPosition ((reads_bytes _ length).thenNothing ?_))
      rw [found]
      exact reads_pure _ _
  · exact admits_throw _

end Decoder

/-- **Where an error shows** that a read between two offsets meets: the end of the window before its
end, and a malformed integer where the read started. Reads meet no other errors, but for names. -/
def Error.ShowsWithin (start stop : Nat) : Error → Prop
  | .unexpectedEnd offset | .invalidUtf8 offset => start ≤ offset ∧ offset ≤ stop
  | .malformedVarint offset _ => offset = start
  | _ => False

/-- A later place in a window has the same end. -/
theorem Cursor.Follows.limit_eq {earlier later : Cursor} (follows : earlier.Follows later) :
    later.limit = earlier.limit := by
  obtain ⟨read, rest, position⟩ := follows
  have length := congrArg List.length rest
  rw [List.length_append] at length
  simp only [Cursor.limit, Cursor.remaining]
  omega

/-- It lies in the window. -/
theorem Cursor.Follows.position_le_limit {earlier later : Cursor}
    (follows : earlier.Follows later) : later.position ≤ earlier.limit :=
  follows.limit_eq ▸ Nat.le_add_right _ _

namespace Decoder

variable {α β : Type}

/-- **Whether a decoder that fails stops in its window**, with an error that shows there. -/
def Stops (decoder : Decoder α) : Prop :=
  ∀ cursor later error, decoder cursor = .error error later →
    cursor.Follows later ∧ error.ShowsWithin cursor.position cursor.limit

/-- A value that is changed has been read before. -/
theorem Stops.map {decoder : Decoder α} (stops : Stops decoder) (change : α → β) :
    Stops (do return change (← decoder)) := by
  intro cursor later error equation
  rcases bind_eq_error.mp equation with fails | ⟨_, _, _, never⟩
  · exact stops cursor later error fails
  · cases never

/-- A byte that is missing stops reading in the window. -/
theorem stops_byte : Stops byte := by
  intro cursor later error equation
  unfold byte at equation
  split at equation
  · cases equation
    exact ⟨cursor.follows_refl, Nat.le_refl _, Nat.le_add_right _ _⟩
  · cases equation

/-- So does a window that is too long. -/
theorem stops_window (count : Nat) : Stops (window count) := by
  intro cursor later error equation
  obtain ⟨rfl, rfl⟩ := window_eq_error equation
  exact ⟨Cursor.follows_refl _, Nat.le_refl _, Nat.le_add_right _ _⟩

/-- So do too many bytes. -/
theorem stops_bytes (count : Nat) : Stops (bytes count) :=
  (stops_window count).map _

/-- Too few bytes for an integer of fixed width are used up. -/
theorem stops_fixedWidth (count : Nat) : Stops (fixedWidth count) := by
  intro cursor later error equation
  unfold fixedWidth at equation
  split at equation
  · cases equation
  · next unused after fails =>
      cases equation
      obtain ⟨stays, -⟩ := stops_bytes count _ _ _ fails
      have follows := stays.trans (after.follows_advance after.remaining)
      exact ⟨follows, follows.position_le, follows.position_le_limit⟩

/-- So does an integer of variable length that does not end or is malformed. -/
theorem stops_varint (bits : Nat) (read : List UInt8 → Reading α) :
    Stops (varint bits read) := by
  intro cursor later error equation
  have follows := cursor.follows_advance (read cursor.rest).consumed
  unfold varint at equation
  simp only at equation
  split at equation
  · cases equation
  -- The end of the input shows where reading stops, and a malformed integer where it starts.
  · cases equation
    exact ⟨follows, follows.position_le, follows.position_le_limit⟩
  all_goals
    cases equation
    exact ⟨follows, rfl⟩

/-- So does an index. -/
theorem stops_unsigned32 : Stops unsigned32 :=
  (stops_varint 32 _).map _

/-- So does a name. -/
theorem stops_name : Stops name := by
  intro cursor later error equation
  rcases bind_eq_error.mp equation with fails | ⟨count, middle, counted, equation⟩
  · exact stops_unsigned32 _ _ _ fails
  have start := proceeds_unsigned32 _ _ _ counted
  rcases bind_eq_error.mp equation with unknown | ⟨offset, same, known, equation⟩
  · cases unknown
  cases known
  rcases bind_eq_error.mp equation with fails | ⟨text, after, read, equation⟩
  · -- The length has been read, and the window is too short for the text.
    obtain ⟨rfl, rfl⟩ := bytes_eq_error fails
    exact ⟨start, start.position_le, start.position_le_limit⟩
  · cases found : String.fromUTF8? ⟨text.toArray⟩ with
    | some name =>
        rw [found] at equation
        cases equation
    | none =>
        rw [found] at equation
        cases equation
        exact ⟨start.trans (proceeds_bytes _ _ _ _ read), start.position_le,
          start.position_le_limit⟩

end Decoder

/-! ## Readers -/

/-- What a reader can be asked for. Numbers with a fraction are read as their words, and signed
integers of 7, 32 and 64 bits at those widths. -/
inductive Item where
  /-- A byte. -/
  | byte
  /-- Four bytes, lowest first. -/
  | word32
  /-- Eight bytes, lowest first. -/
  | word64
  /-- An unsigned integer of any width. -/
  | unsigned (bits : Nat)
  /-- A signed integer of any width. -/
  | signed (bits : Nat)
  /-- A single bit. -/
  | flag
  /-- An unsigned integer of 7 bits. -/
  | unsigned7
  /-- An unsigned integer of 32 bits. -/
  | unsigned32
  /-- A run of bytes. -/
  | bytes (count : Nat)
  /-- A name. -/
  | name

/-- What a reader gives. -/
inductive Datum where
  /-- A byte, or an integer of 7 bits. -/
  | byte (value : UInt8)
  /-- A word of four bytes. -/
  | word32 (value : BitVec 32)
  /-- A word of eight bytes. -/
  | word64 (value : BitVec 64)
  /-- An unsigned integer. -/
  | natural (value : Nat)
  /-- A signed integer. -/
  | integer (value : Int)
  /-- A single bit. -/
  | flag (value : Bool)
  /-- An index, a count or a size. -/
  | index (value : UInt32)
  /-- A run of bytes. -/
  | run (value : List UInt8)
  /-- A name. -/
  | name (value : String)

/-- How an item is read. -/
def Item.decoder : Item → Decoder Datum
  | .byte => do return .byte (← Decoder.byte)
  | .word32 => do return .word32 (← Decoder.word32)
  | .word64 => do return .word64 (← Decoder.word64)
  | .unsigned bits => do return .natural (← Decoder.unsigned bits)
  | .signed bits => do return .integer (← Decoder.signed bits)
  | .flag => do return .flag (← Decoder.flag)
  | .unsigned7 => do return .byte (← Decoder.unsigned7)
  | .unsigned32 => do return .index (← Decoder.unsigned32)
  | .bytes count => do return .run (← Decoder.bytes count)
  | .name => do return .name (← Decoder.name)

/-- **Every item is known from its bytes.** -/
theorem Item.selfContained (item : Item) : item.decoder.SelfContained := by
  cases item with
  | byte => exact Decoder.selfContained_byte.map _
  | word32 => exact Decoder.selfContained_word32.map _
  | word64 => exact Decoder.selfContained_word64.map _
  | unsigned bits => exact (Decoder.selfContained_unsigned bits).map _
  | signed bits => exact (Decoder.selfContained_signed bits).map _
  | flag => exact ((Decoder.selfContained_unsigned 1).map _).map _
  | unsigned7 => exact ((Decoder.selfContained_unsigned 7).map _).map _
  | unsigned32 => exact Decoder.selfContained_unsigned32.map _
  | bytes count => exact (Decoder.selfContained_bytes count).map _
  | name => exact Decoder.selfContained_name.map _

/-- **Every read that fails stops in its window.** -/
theorem Item.stops (item : Item) : item.decoder.Stops := by
  cases item with
  | byte => exact Decoder.stops_byte.map _
  | word32 => exact ((Decoder.stops_fixedWidth 4).map _).map _
  | word64 => exact ((Decoder.stops_fixedWidth 8).map _).map _
  | unsigned bits => exact (Decoder.stops_varint bits _).map _
  | signed bits => exact (Decoder.stops_varint bits _).map _
  | flag => exact ((Decoder.stops_varint 1 _).map _).map _
  | unsigned7 => exact ((Decoder.stops_varint 7 _).map _).map _
  | unsigned32 => exact Decoder.stops_unsigned32.map _
  | bytes count => exact (Decoder.stops_bytes count).map _
  | name => exact Decoder.stops_name.map _

/-- A reader: a cursor in the window that it has been opened on. -/
structure Reader where
  /-- The offset of the first byte of the window. -/
  low : Nat
  /-- The offset of the end of the window. -/
  high : Nat
  /-- Where reading goes on. -/
  cursor : Cursor

namespace Reader

/-- A reader of all that is left for a cursor. -/
def on (cursor : Cursor) : Reader :=
  ⟨cursor.position, cursor.limit, cursor⟩

/-- The absolute offset of the next byte. -/
def position (reader : Reader) : Nat :=
  reader.cursor.position

/-- The number of bytes left in the window. -/
def remaining (reader : Reader) : Nat :=
  reader.cursor.remaining

/-- A reader whose cursor is another one. -/
def goOn (reader : Reader) (cursor : Cursor) : Reader :=
  { reader with cursor }

/-- A reader that goes on keeps its window. -/
@[simp] theorem high_goOn (reader : Reader) (cursor : Cursor) :
    (reader.goOn cursor).high = reader.high := rfl

/-- It is where the cursor is. -/
@[simp] theorem position_goOn (reader : Reader) (cursor : Cursor) :
    (reader.goOn cursor).position = cursor.position := rfl

/-! ### Windows -/

/-- **Whether a reader stands for its window** of bytes. -/
structure Stands (bytes : List UInt8) (reader : Reader) : Prop where
  /-- The window ends in the bytes. -/
  inside : reader.high ≤ bytes.length
  /-- The position is not before the window. -/
  above : reader.low ≤ reader.position
  /-- The position is not behind the window. -/
  below : reader.position ≤ reader.high
  /-- What is left goes up to the end of the window. -/
  total : reader.position + reader.remaining = reader.high
  /-- What is left are the bytes there. -/
  rest_eq : reader.cursor.rest = bytes.extract reader.position reader.high

/-- **Whether a reader has gone on** in the same window, or stayed where it was. -/
structure Advances (earlier later : Reader) : Prop where
  /-- The window starts where it did. -/
  low_eq : later.low = earlier.low
  /-- The window ends where it did. -/
  high_eq : later.high = earlier.high
  /-- The position is no smaller. -/
  position_le : earlier.position ≤ later.position

/-- A reader has stayed where it is. -/
theorem Advances.refl (reader : Reader) : reader.Advances reader :=
  ⟨rfl, rfl, Nat.le_refl _⟩

/-- A reader that has gone on twice has gone on. -/
theorem Advances.trans {first second third : Reader} (near : first.Advances second)
    (far : second.Advances third) : first.Advances third :=
  ⟨far.low_eq.trans near.low_eq, far.high_eq.trans near.high_eq,
    near.position_le.trans far.position_le⟩

/-- A later cursor takes a reader on. -/
theorem advances_goOn {reader : Reader} {later : Cursor} (follows : reader.cursor.Follows later) :
    reader.Advances (reader.goOn later) :=
  ⟨rfl, rfl, follows.position_le⟩

variable {bytes : List UInt8} {reader : Reader}

/-- The whole input is a window. -/
theorem stands_on_ofBytes (bytes : List UInt8) : (on (Cursor.ofBytes bytes)).Stands bytes where
  inside := (Nat.zero_add _).le
  above := Nat.le_refl _
  below := Nat.zero_le _
  total := rfl
  rest_eq := by
    show bytes = List.take (0 + bytes.length - 0) (List.drop 0 bytes)
    rw [Nat.zero_add, Nat.sub_zero, List.drop_zero, List.take_length]

/-- The end of the window is that of its cursor. -/
theorem Stands.limit_eq (stands : reader.Stands bytes) : reader.cursor.limit = reader.high :=
  stands.total

/-- **What is read and what is left** are the two parts of the window at the new position. -/
theorem Stands.parts (stands : reader.Stands bytes) {read rest : List UInt8}
    (split : reader.cursor.rest = read ++ rest) :
    read = bytes.extract reader.position (reader.position + read.length) ∧
      rest = bytes.extract (reader.position + read.length) reader.high := by
  have lengths : reader.remaining = read.length + rest.length := by
    rw [remaining, Cursor.remaining, split, List.length_append]
  have within : reader.position + read.length ≤ reader.high := by
    have total := stands.total
    omega
  have whole := stands.rest_eq
  rw [split, ← extract_append bytes (Nat.le_add_right _ _) within] at whole
  refine List.append_inj whole ?_
  rw [length_extract (within.trans stands.inside), Nat.add_sub_cancel_left]

/-- **A reader that goes on in its window** stands for it. -/
theorem Stands.goOn (stands : reader.Stands bytes) {later : Cursor}
    (follows : reader.cursor.Follows later) : (reader.goOn later).Stands bytes where
  inside := stands.inside
  above := stands.above.trans follows.position_le
  below := follows.position_le_limit.trans_eq stands.limit_eq
  total := follows.limit_eq.trans stands.limit_eq
  rest_eq := by
    obtain ⟨read, split, place⟩ := follows
    exact (stands.parts split).2.trans (by rw [position_goOn, high_goOn, place]; rfl)

/-- **A reader of the next bytes** stands for a window of its own. -/
theorem Stands.front (stands : reader.Stands bytes) {count : Nat}
    (fits : count ≤ reader.remaining) :
    (on ⟨reader.position, reader.cursor.rest.take count⟩).Stands bytes := by
  have within : reader.position + count ≤ reader.high := by
    have total := stands.total
    omega
  have length : (reader.cursor.rest.take count).length = count := List.length_take_of_le fits
  refine ⟨?_, Nat.le_refl _, Nat.le_add_right _ _, rfl, ?_⟩
  · show reader.position + (reader.cursor.rest.take count).length ≤ bytes.length
    rw [length]
    exact within.trans stands.inside
  · show reader.cursor.rest.take count = bytes.extract reader.position
      (reader.position + (reader.cursor.rest.take count).length)
    rw [length, stands.rest_eq, take_extract bytes within]

end Reader

/-! ## Calls -/

/-- What can be called on the reader that has been opened last. -/
inductive Call where
  /-- Reading an item. -/
  | read (item : Item)
  /-- A look at the next byte. -/
  | peek
  /-- Opening a reader of the next bytes. -/
  | sub (count : Nat)
  /-- Going back to the reader from which this one has been split off, if there is one. -/
  | leave

/-- What a call gives. -/
inductive Reply where
  /-- An item has been read. -/
  | datum (value : Datum)
  /-- The next byte, if there is one. -/
  | peeked (next : Option UInt8)
  /-- A reader has been opened. -/
  | opened
  /-- A reader has been left. -/
  | left
  /-- Something could not be read. -/
  | failed (error : Error)

/-- Readers that are open: the one opened last, and those around it from the nearest on. -/
structure Readers where
  /-- The reader opened last. -/
  top : Reader
  /-- The readers from which it has been split off. -/
  outer : List Reader

namespace Readers

/-- A single reader of bytes. -/
def ofBytes (bytes : List UInt8) : Readers :=
  ⟨.on (.ofBytes bytes), []⟩

/-- The readers that are open, innermost first. -/
def toList (readers : Readers) : List Reader :=
  readers.top :: readers.outer

/-- The reader at a level, counted from the outermost one. -/
def at? (readers : Readers) (level : Nat) : Option Reader :=
  readers.toList.reverse[level]?

/-- A call on the reader opened last. A read that fails leaves the cursor where reading stopped. -/
def perform (readers : Readers) : Call → Reply × Readers
  | .read item =>
      match item.decoder readers.top.cursor with
      | .ok value later => (.datum value, ⟨readers.top.goOn later, readers.outer⟩)
      | .error error later => (.failed error, ⟨readers.top.goOn later, readers.outer⟩)
  | .peek => (.peeked readers.top.cursor.peek?, readers)
  | .sub count =>
      match Decoder.window count readers.top.cursor with
      | .ok window later => (.opened, ⟨.on window, readers.top.goOn later :: readers.outer⟩)
      | .error error later => (.failed error, ⟨readers.top.goOn later, readers.outer⟩)
  | .leave =>
      match readers.outer with
      | [] => (.left, readers)
      | next :: outer => (.left, ⟨next, outer⟩)

/-- The readers that are open after some calls. -/
def after (readers : Readers) (calls : List Call) : Readers :=
  calls.foldl (fun readers call => (readers.perform call).2) readers

end Readers

/-- **How a reader answers** when an item is read. -/
inductive Reader.Answers (bytes : List UInt8) (reader : Reader) (item : Item) :
    Reply → Reader → Prop
  /-- The item has been read of the bytes between the two positions, which are read as the same
  value at any position and in front of any other bytes. -/
  | datum {value : Datum} {later : Reader} (stands : later.Stands bytes)
      (advances : reader.Advances later)
      (determined : ∀ position, item.decoder.Reads position
        (bytes.extract reader.position later.position) value) :
      Answers bytes reader item (.datum value) later
  /-- The item cannot be read. Too long a run of bytes leaves the reader as it is. -/
  | failed {error : Error} {later : Reader} (stands : later.Stands bytes)
      (advances : reader.Advances later)
      (shows : error.ShowsWithin reader.position reader.high)
      (unmoved : ∀ count, item = .bytes count → later = reader) :
      Answers bytes reader item (.failed error) later

/-- **All that a call may do** to readers of bytes. -/
inductive Readers.Serves (bytes : List UInt8) (readers : Readers) : Call → Reply → Readers → Prop
  /-- A read is one of the reader opened last and leaves the others alone. -/
  | read {item : Item} {reply : Reply} {later : Reader}
      (answers : readers.top.Answers bytes item reply later) :
      Serves bytes readers (.read item) reply ⟨later, readers.outer⟩
  /-- A look at the next byte of the window changes nothing. -/
  | peeked :
      Serves bytes readers .peek
        (.peeked (bytes.extract readers.top.position readers.top.high).head?) readers
  /-- A reader of as many bytes as are there is opened at the position, up to the position that the
  reader around it goes on from. -/
  | opened {count : Nat} {window parent : Reader} (fits : count ≤ readers.top.remaining)
      (stands : window.Stands bytes) (low : window.low = readers.top.position)
      (start : window.position = readers.top.position)
      (high : window.high = readers.top.position + count) (parentStands : parent.Stands bytes)
      (advances : readers.top.Advances parent)
      (behind : parent.position = readers.top.position + count) :
      Serves bytes readers (.sub count) .opened ⟨window, parent :: readers.outer⟩
  /-- A window that is too long changes nothing. -/
  | refused {count : Nat} (long : readers.top.remaining < count) :
      Serves bytes readers (.sub count) (.failed (.unexpectedEnd readers.top.position)) readers
  /-- The reader around the one opened last goes on where it stood. -/
  | left {next : Reader} {outer : List Reader} (around : readers.outer = next :: outer) :
      Serves bytes readers .leave .left ⟨next, outer⟩
  /-- The outermost reader stays. -/
  | stays (alone : readers.outer = []) : Serves bytes readers .leave .left readers

/-! ## One call -/

variable {bytes : List UInt8}

/-- A window that fits is the front of what is left, and reading goes on behind it. -/
theorem Decoder.window_eq_ok {count : Nat} {cursor : Cursor} (fits : count ≤ cursor.remaining) :
    Decoder.window count cursor =
      .ok ⟨cursor.position, cursor.rest.take count⟩ (cursor.advance count) := by
  have full : (cursor.rest.take count).length = count := List.length_take_of_le fits
  simp only [Decoder.window, if_pos full, Cursor.advance, Nat.min_eq_left fits]

/-- A window that does not fit leaves the cursor. -/
theorem Decoder.window_eq_error_of_long {count : Nat} {cursor : Cursor}
    (long : cursor.remaining < count) :
    Decoder.window count cursor = .error (.unexpectedEnd cursor.position) cursor := by
  have missing : ¬(cursor.rest.take count).length = count := by
    rw [List.length_take]
    exact ((Nat.min_le_right _ _).trans_lt long).ne
  simp only [Decoder.window, if_neg missing]

/-- A run of bytes that cannot be read does not move the cursor. -/
theorem Item.eq_of_bytes_fail {count : Nat} {cursor later : Cursor} {error : Error}
    (fails : (Item.bytes count).decoder cursor = .error error later) : later = cursor := by
  rcases bind_eq_error.mp fails with missing | ⟨_, _, _, never⟩
  · exact (Decoder.bytes_eq_error missing).2
  · cases never

namespace Readers

variable {readers : Readers}

/-- **What a call does** to a reader that stands for its window. -/
theorem serves (stands : readers.top.Stands bytes) (call : Call) :
    Serves bytes readers call (readers.perform call).1 (readers.perform call).2 := by
  cases call with
  | read item =>
      simp only [perform]
      cases equation : item.decoder readers.top.cursor with
      | ok value later =>
          obtain ⟨front, split, place, reads⟩ := item.selfContained _ _ _ equation
          have follows : readers.top.cursor.Follows later := ⟨front, split, place⟩
          refine .read (.datum (stands.goOn follows) (Reader.advances_goOn follows) ?_)
          rw [Reader.position_goOn, place]
          exact (stands.parts split).1 ▸ reads
      | error error later =>
          obtain ⟨follows, shows⟩ := item.stops _ _ _ equation
          refine .read (.failed (stands.goOn follows) (Reader.advances_goOn follows)
            (stands.limit_eq ▸ shows) ?_)
          rintro count rfl
          rw [Item.eq_of_bytes_fail equation]
          rfl
  | peek =>
      simp only [perform, Cursor.peek?, stands.rest_eq]
      exact .peeked
  | sub count =>
      by_cases fits : count ≤ readers.top.remaining
      -- The reader that is opened covers the front; the one beneath goes on behind it.
      · have length : (readers.top.cursor.rest.take count).length = count :=
          List.length_take_of_le fits
        have follows := readers.top.cursor.follows_advance count
        simp only [perform, Decoder.window_eq_ok fits]
        exact .opened fits (stands.front fits) rfl rfl
          (congrArg (readers.top.position + ·) length) (stands.goOn follows)
          (Reader.advances_goOn follows)
          (congrArg (readers.top.position + ·) (Nat.min_eq_left fits))
      · have long : readers.top.remaining < count := Nat.lt_of_not_le fits
        simp only [perform, Decoder.window_eq_error_of_long long]
        exact .refused long
  | leave =>
      simp only [perform]
      split
      · next alone => exact .stays alone
      · next around => exact .left around

/-- **Readers stand for their windows after a call** as they did before. -/
theorem Serves.stands {call : Call} {reply : Reply} {later : Readers}
    (serves : Serves bytes readers call reply later)
    (stands : ∀ reader ∈ readers.toList, reader.Stands bytes) :
    ∀ reader ∈ later.toList, reader.Stands bytes := by
  obtain ⟨-, others⟩ := List.forall_mem_cons.mp stands
  cases serves with
  | read answers =>
      cases answers with
      | datum inner => exact List.forall_mem_cons.mpr ⟨inner, others⟩
      | failed inner => exact List.forall_mem_cons.mpr ⟨inner, others⟩
  | peeked | refused | stays => exact stands
  | opened _ inner _ _ _ parent =>
      exact List.forall_mem_cons.mpr ⟨inner, List.forall_mem_cons.mpr ⟨parent, others⟩⟩
  | left around =>
      rw [around] at others
      exact others

/-- A window is opened exactly if it fits. -/
theorem Serves.opened_iff {count : Nat} {reply : Reply} {later : Readers}
    (serves : Serves bytes readers (.sub count) reply later) :
    reply = .opened ↔ count ≤ readers.top.remaining := by
  cases serves with
  | opened fits => exact iff_of_true rfl fits
  | refused long => exact iff_of_false nofun (Nat.not_le_of_lt long)

/-- Whatever is called, readers stand for their windows. -/
theorem stands_after (stands : ∀ reader ∈ readers.toList, reader.Stands bytes)
    (calls : List Call) : ∀ reader ∈ (readers.after calls).toList, reader.Stands bytes := by
  induction calls generalizing readers with
  | nil => exact stands
  | cons call calls callsInduction =>
      exact callsInduction ((serves (List.forall_mem_cons.mp stands).1 call).stands stands)

/-! ## Many calls -/

/-- The number of readers that are open. -/
def height (readers : Readers) : Nat :=
  readers.toList.length

/-- **Whether the reader at a level has gone on** from what it was. -/
def GoesOn (level : Nat) (before later : Readers) : Prop :=
  ∃ reader next, before.at? level = some reader ∧ later.at? level = some next ∧
    reader.Advances next

variable {level : Nat} {later : Readers} {front back last : List Reader}

/-- A reader below those that a call changes is what it was. -/
theorem goesOn_of_front (before : readers.toList.reverse = front ++ back)
    (after : later.toList.reverse = front ++ last) (below : level < front.length) :
    GoesOn level readers later := by
  refine ⟨front[level], front[level], ?_, ?_, .refl _⟩
  · rw [at?, before, List.getElem?_append_left below, List.getElem?_eq_getElem below]
  · rw [at?, after, List.getElem?_append_left below, List.getElem?_eq_getElem below]

/-- The reader that a call moves has gone on, and those below it are what they were. -/
theorem goesOn_of_next {reader next : Reader}
    (before : readers.toList.reverse = front ++ reader :: back)
    (after : later.toList.reverse = front ++ next :: last) (advances : reader.Advances next)
    (upTo : level ≤ front.length) : GoesOn level readers later := by
  rcases Nat.lt_or_eq_of_le upTo with below | rfl
  · exact goesOn_of_front before after below
  · refine ⟨reader, next, ?_, ?_, advances⟩
    · rw [at?, before, List.getElem?_append_right (Nat.le_refl _), Nat.sub_self]
      rfl
    · rw [at?, after, List.getElem?_append_right (Nat.le_refl _), Nat.sub_self]
      rfl

/-- Without a call an open reader stays. -/
theorem goesOn_refl (here : level < readers.height) : GoesOn level readers readers :=
  goesOn_of_front (List.append_nil _).symm (List.append_nil _).symm
    (by rwa [List.length_reverse])

/-- **A call takes no reader back**: one that is still open has gone on or stayed. -/
theorem Serves.goesOn {call : Call} {reply : Reply}
    (serves : Serves bytes readers call reply later) (before : level < readers.height)
    (after : level < later.height) : GoesOn level readers later := by
  have upTo : level ≤ readers.outer.reverse.length := by
    rw [List.length_reverse]
    exact Nat.le_of_lt_succ before
  cases serves with
  | read answers =>
      cases answers with
      | datum _ advances => exact goesOn_of_next List.reverse_cons List.reverse_cons advances upTo
      | failed _ advances => exact goesOn_of_next List.reverse_cons List.reverse_cons advances upTo
  | peeked | refused | stays => exact goesOn_refl before
  | @opened _ window parent _ _ _ _ _ _ advances =>
      -- The reader around the new one stands below it.
      have reversed : (parent :: readers.outer).reverse ++ [window] =
          readers.outer.reverse ++ parent :: [window] := by
        rw [List.reverse_cons, List.append_assoc]
        rfl
      exact goesOn_of_next List.reverse_cons (List.reverse_cons.trans reversed) advances upTo
  | @left next outer around =>
      -- What is left are the readers around the one opened last.
      have same : (next :: outer).reverse = readers.outer.reverse ++ [] := by
        rw [around, List.append_nil]
      refine goesOn_of_front List.reverse_cons same ?_
      rw [around, List.length_reverse]
      exact after

/-- **No run of calls takes a reader back** that stays open all the time. -/
theorem goesOn_after (stands : ∀ reader ∈ readers.toList, reader.Stands bytes)
    (calls : List Call) (stays : ∀ front, front <+: calls → level < (readers.after front).height) :
    GoesOn level readers (readers.after calls) := by
  induction calls generalizing readers with
  | nil => exact goesOn_refl (stays [] List.prefix_rfl)
  | cons call calls callsInduction =>
      have serves := serves (List.forall_mem_cons.mp stands).1 call
      obtain ⟨reader, middle, found, between, near⟩ :=
        serves.goesOn (stays [] List.nil_prefix) (stays [call] ⟨calls, rfl⟩)
      obtain ⟨_, next, same, arrives, far⟩ :=
        callsInduction (serves.stands stands) fun front isFront =>
          stays (call :: front) (List.cons_prefix_cons.mpr ⟨rfl, isFront⟩)
      cases between.symm.trans same
      exact ⟨reader, next, found, arrives, near.trans far⟩

/-- **Readers are faithful windows.** Whatever has been called on a reader of bytes and the readers
split off it, with or without success, every reader that is open stands for its window; a further
call does to them what `Serves` says, and opens a window exactly if that fits; and readers that stay
open during further calls keep their windows and are never taken back. -/
theorem windows_are_faithful (bytes : List UInt8) (calls : List Call) :
    let readers := (ofBytes bytes).after calls
    (∀ reader ∈ readers.toList, reader.Stands bytes) ∧
      (∀ call, Serves bytes readers call (readers.perform call).1 (readers.perform call).2) ∧
      (∀ count, (readers.perform (.sub count)).1 = .opened ↔ count ≤ readers.top.remaining) ∧
      ∀ further level,
        (∀ front, front <+: further → level < (readers.after front).height) →
          GoesOn level readers (readers.after further) := by
  intro readers
  have start : ∀ reader ∈ (ofBytes bytes).toList, reader.Stands bytes :=
    List.forall_mem_cons.mpr ⟨Reader.stands_on_ofBytes bytes, List.forall_mem_nil _⟩
  have stands := stands_after start calls
  have serves := serves (List.forall_mem_cons.mp stands).1
  exact ⟨stands, serves, fun count => (serves (.sub count)).opened_iff,
    fun further level => goesOn_after stands further⟩

end Readers

end Binary

end WasmCompiler
