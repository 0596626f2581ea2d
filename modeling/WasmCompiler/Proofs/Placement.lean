import WasmCompiler.Proofs.Layout

/-! # Where code stands

A sequence of structured code stands at a position of a list of instructions if its linked form can
be read off there. Then so do the insides of its blocks, each at a position of its own, between the
instruction that opens the block and the mark that ends it.

* **`Code.Placed`** — a sequence stands at a position;
* **`Code.Placed.block`**, **`Code.Placed.ifThen`**, **`Code.Placed.ifElse`** — the parts of a block
  stand where linking puts them;
* **`Construct`** — a whole block stands at a position. -/

namespace WasmCompiler

/-! ## Parts of a list -/

section Lists

variable {α : Type} {all before after : List α} {position : Nat} {first : α}

/-- What a list has from a position on starts with the element there. -/
theorem getElem?_of_drop_eq_cons (equation : all.drop position = first :: after) :
    all[position]? = some first := by
  rw [← List.head?_drop, equation, List.head?_cons]

/-- After one element comes what the list has from the next position on. -/
theorem drop_succ_of_drop_eq_cons (equation : all.drop position = first :: after) :
    all.drop (position + 1) = after := by
  rw [← List.drop_drop, equation, List.drop_one, List.tail_cons]

/-- After a part comes what the list has from the end of the part on. -/
theorem drop_add_of_drop_eq_append (equation : all.drop position = before ++ after) :
    all.drop (position + before.length) = after := by
  rw [← List.drop_drop, equation, List.drop_left]

end Lists

/-! ## Standing at a position -/

/-- Whether a sequence stands at a position of a list of instructions, with the given openers around
it and the given number for its first label. -/
def Code.Placed (all : List Instruction) {depth : Nat} (code : Code depth)
    (labels : LabelStack depth) (position label : Nat) : Prop :=
  ∃ rest, all.drop position = code.instructions labels position label ++ rest

namespace Code.Placed

variable {all : List Instruction} {depth : Nat} {labels : LabelStack depth} {position label : Nat}

/-- An instruction without block structure stands there, and the rest behind it. -/
theorem plain {offset : Nat} {instruction : PlainInstruction} {next : Code depth}
    (placed : (Code.plain offset instruction next).Placed all labels position label) :
    all[position]? = some (.plain instruction) ∧ next.Placed all labels (position + 1) label := by
  obtain ⟨rest, equation⟩ := placed
  exact ⟨getElem?_of_drop_eq_cons equation, rest, drop_succ_of_drop_eq_cons equation⟩

/-- So does a branch, linked to where it goes. -/
theorem jump {offset : Nat} {leap : Jump depth} {next : Code depth}
    (placed : (Code.jump offset leap next).Placed all labels position label) :
    all[position]? = some (leap.link labels) ∧ next.Placed all labels (position + 1) label := by
  obtain ⟨rest, equation⟩ := placed
  exact ⟨getElem?_of_drop_eq_cons equation, rest, drop_succ_of_drop_eq_cons equation⟩

/-- A part between an instruction and a mark stands after the instruction, with the mark after
it. -/
theorem between {inside : Code (depth + 1)} {opener mark : Instruction} {target : Nat}
    {insideLabel : Nat} {after : List Instruction}
    (equation : all.drop position = opener ::
      (inside.instructions (labels.push target) (position + 1) insideLabel ++ mark :: after)) :
    all[position]? = some opener ∧
      inside.Placed all (labels.push target) (position + 1) insideLabel ∧
      all.drop (position + 1 + inside.size) = mark :: after := by
  have onward := drop_succ_of_drop_eq_cons equation
  refine ⟨getElem?_of_drop_eq_cons equation, ⟨_, onward⟩, ?_⟩
  rw [← drop_add_of_drop_eq_append onward, length_instructions]

/-- **A block that stands somewhere**: its opener, its inside, its end and what follows. -/
theorem block {offset : Nat} {kind : BlockKind} {type : BlockType} {body : Code (depth + 1)}
    {finish : Nat} {next : Code depth}
    (placed : (Code.block offset kind type body finish next).Placed all labels position label) :
    all[position]? = some (kind.opener type label (position + 1 + body.size)) ∧
      body.Placed all (labels.push position) (position + 1) (label + 1) ∧
      all[position + 1 + body.size]? = some (.finish (some position)) ∧
      next.Placed all labels (position + 1 + body.size + 1) (label + 1 + body.labelCount) := by
  obtain ⟨rest, equation⟩ := placed
  simp only [instructions, List.cons_append, List.append_assoc] at equation
  obtain ⟨opener, inside, onward⟩ := between equation
  exact ⟨opener, inside, getElem?_of_drop_eq_cons onward, rest, drop_succ_of_drop_eq_cons onward⟩

/-- **A conditional block with one arm that stands somewhere.** -/
theorem ifThen {offset : Nat} {type : BlockType} {arm : Code (depth + 1)} {finish : Nat}
    {next : Code depth}
    (placed : (Code.ifThen offset type arm finish next).Placed all labels position label) :
    all[position]? = some (.ifThen type label (some (position + 1 + arm.size)) none) ∧
      arm.Placed all (labels.push position) (position + 1) (label + 1) ∧
      all[position + 1 + arm.size]? = some (.finish (some position)) ∧
      next.Placed all labels (position + 1 + arm.size + 1) (label + 1 + arm.labelCount) := by
  obtain ⟨rest, equation⟩ := placed
  simp only [instructions, List.cons_append, List.append_assoc] at equation
  obtain ⟨opener, inside, onward⟩ := between equation
  exact ⟨opener, inside, getElem?_of_drop_eq_cons onward, rest, drop_succ_of_drop_eq_cons onward⟩

/-- **A conditional block with two arms that stands somewhere.** -/
theorem ifElse {offset : Nat} {type : BlockType} {arm : Code (depth + 1)} {middle : Nat}
    {otherwise : Code (depth + 1)} {finish : Nat} {next : Code depth} {divider closer second : Nat}
    (dividerEquation : divider = position + 1 + arm.size)
    (closerEquation : closer = divider + 1 + otherwise.size)
    (secondEquation : second = label + 1 + arm.labelCount)
    (placed : (Code.ifElse offset type arm middle otherwise finish next).Placed all labels position
      label) :
    all[position]? = some (.ifThen type label (some closer) (some divider)) ∧
      arm.Placed all (labels.push position) (position + 1) (label + 1) ∧
      all[divider]? = some (.otherwise second position) ∧
      otherwise.Placed all (labels.push divider) (divider + 1) (second + 1) ∧
      all[closer]? = some (.finish (some position)) ∧
      next.Placed all labels (closer + 1) (second + 1 + otherwise.labelCount) := by
  subst dividerEquation closerEquation secondEquation
  obtain ⟨rest, equation⟩ := placed
  simp only [instructions, List.cons_append, List.append_assoc] at equation
  obtain ⟨opener, first, middleEquation⟩ := between equation
  obtain ⟨divide, inside, onward⟩ := between middleEquation
  exact ⟨opener, first, divide, inside, getElem?_of_drop_eq_cons onward, rest,
    drop_succ_of_drop_eq_cons onward⟩

end Code.Placed

/-! ## Whole blocks -/

namespace Instruction

/-- Whether an instruction opens a block. -/
def isOpener : Instruction → Bool
  | .block .. | .loop .. | .ifThen .. => true
  | _ => false

/-- The position of the mark that ends the block that an instruction opens. -/
def finish? : Instruction → Option Nat
  | .block _ _ closer | .loop _ _ closer | .ifThen _ _ closer _ => closer
  | _ => none

/-- The position of the second arm of the conditional block that an instruction opens. -/
def arm? : Instruction → Option Nat
  | .ifThen _ _ _ arm => arm
  | _ => none

/-- The label that an instruction carries. -/
def label? : Instruction → Option Nat
  | .block _ label _ | .loop _ label _ | .ifThen _ label _ _ | .otherwise label _ => some label
  | _ => none

/-- The branches that an instruction may take. -/
def branches : Instruction → List Branch
  | .branch target | .branchIf target => [target]
  | .branchTable targets fallback => targets ++ [fallback]
  | _ => []

end Instruction

/-- The opener of a block is an opener. -/
@[simp] theorem BlockKind.isOpener_opener (kind : BlockKind) (type : BlockType)
    (label finish : Nat) : (kind.opener type label finish).isOpener = true := by
  cases kind <;> rfl

/-- Its block is closed where it says. -/
@[simp] theorem BlockKind.finish?_opener (kind : BlockKind) (type : BlockType)
    (label finish : Nat) : (kind.opener type label finish).finish? = some finish := by
  cases kind <;> rfl

/-- It has no else arm. -/
@[simp] theorem BlockKind.arm?_opener (kind : BlockKind) (type : BlockType)
    (label finish : Nat) : (kind.opener type label finish).arm? = none := by
  cases kind <;> rfl

/-- Its label is the one it was given. -/
@[simp] theorem BlockKind.label?_opener (kind : BlockKind) (type : BlockType)
    (label finish : Nat) : (kind.opener type label finish).label? = some label := by
  cases kind <;> rfl

/-- A jump refers to no mark. -/
@[simp] theorem Jump.finish?_link {depth : Nat} (labels : LabelStack depth) (leap : Jump depth) :
    (leap.link labels).finish? = none := by
  cases leap <;> rfl

/-- A jump carries no label. -/
@[simp] theorem Jump.label?_link {depth : Nat} (labels : LabelStack depth) (leap : Jump depth) :
    (leap.link labels).label? = none := by
  cases leap <;> rfl

/-- **A whole block stands at a position**: its opener, the mark between its arms if it has two,
its end, and its inside between them. -/
inductive Construct (all : List Instruction) (opener : Nat) : Option Nat → Nat → Prop where
  /-- A block or a loop. -/
  | block {depth label : Nat} {labels : LabelStack depth} {type : BlockType}
      {body : Code (depth + 1)} (kind : BlockKind)
      (opens : all[opener]? = some (kind.opener type label (opener + 1 + body.size)))
      (inside : body.Placed all (labels.push opener) (opener + 1) (label + 1))
      (closes : all[opener + 1 + body.size]? = some (.finish (some opener))) :
      Construct all opener none (opener + 1 + body.size)
  /-- A conditional block with one arm. -/
  | ifThen {depth label : Nat} {labels : LabelStack depth} {type : BlockType}
      {arm : Code (depth + 1)}
      (opens : all[opener]? = some (.ifThen type label (some (opener + 1 + arm.size)) none))
      (inside : arm.Placed all (labels.push opener) (opener + 1) (label + 1))
      (closes : all[opener + 1 + arm.size]? = some (.finish (some opener))) :
      Construct all opener none (opener + 1 + arm.size)
  /-- A conditional block with two arms. -/
  | ifElse {depth label second divider closer : Nat} {labels : LabelStack depth} {type : BlockType}
      {arm otherwise : Code (depth + 1)}
      (dividerEquation : divider = opener + 1 + arm.size)
      (closerEquation : closer = divider + 1 + otherwise.size)
      (opens : all[opener]? = some (.ifThen type label (some closer) (some divider)))
      (inside : arm.Placed all (labels.push opener) (opener + 1) (label + 1))
      (divides : all[divider]? = some (.otherwise second opener))
      (insideOther : otherwise.Placed all (labels.push divider) (divider + 1) (second + 1))
      (closes : all[closer]? = some (.finish (some opener))) :
      Construct all opener (some divider) closer

namespace Construct

variable {all : List Instruction} {opener closer : Nat} {divider : Option Nat}

/-- A block ends after its opener, at a mark that refers back to it. -/
theorem closes (construct : Construct all opener divider closer) :
    opener < closer ∧ all[closer]? = some (.finish (some opener)) := by
  cases construct with
  | block kind opens inside closes => exact ⟨by omega, closes⟩
  | ifThen opens inside closes => exact ⟨by omega, closes⟩
  | ifElse dividerEquation closerEquation opens inside divides insideOther closes =>
      exact ⟨by omega, closes⟩

/-- The opener of a block refers to its end and to the mark between its arms. -/
theorem opens (construct : Construct all opener divider closer) :
    ∃ instruction, all[opener]? = some instruction ∧ instruction.isOpener = true ∧
      instruction.finish? = some closer ∧ instruction.arm? = divider := by
  cases construct with
  | block kind opens inside closes => exact ⟨_, opens, by simp, by simp, by simp⟩
  | ifThen opens inside closes => exact ⟨_, opens, rfl, rfl, rfl⟩
  | ifElse dividerEquation closerEquation opens inside divides insideOther closes =>
      exact ⟨_, opens, rfl, rfl, rfl⟩

/-- The mark between two arms lies inside the block and refers back to its opener. -/
theorem divides {middle : Nat} (construct : Construct all opener (some middle) closer) :
    opener < middle ∧ middle < closer ∧
      ∃ label, all[middle]? = some (.otherwise label opener) := by
  cases construct with
  | ifElse dividerEquation closerEquation opens inside divides insideOther closes =>
      exact ⟨by omega, by omega, _, divides⟩

end Construct

/-- **The part that an instruction plays** in code that reaches from `start` up to `limit`: marks
belong to whole blocks, and those lie in the code. -/
inductive Role (all : List Instruction) (start limit position : Nat) : Instruction → Prop where
  /-- An instruction without block structure. -/
  | plain (instruction : PlainInstruction) : Role all start limit position (.plain instruction)
  /-- A branch. -/
  | jump {depth : Nat} (labels : LabelStack depth) (leap : Jump depth) :
      Role all start limit position (leap.link labels)
  /-- The opener of a block. -/
  | opener {divider : Option Nat} {closer : Nat} {instruction : Instruction}
      (construct : Construct all position divider closer) (ends : closer < limit)
      (opens : instruction.isOpener = true) : Role all start limit position instruction
  /-- The mark between the arms of a block. -/
  | divider {opener closer label : Nat} (construct : Construct all opener (some position) closer)
      (starts : start ≤ opener) : Role all start limit position (.otherwise label opener)
  /-- The end of a block. -/
  | closer {opener : Nat} {divider : Option Nat}
      (construct : Construct all opener divider position) (starts : start ≤ opener) :
      Role all start limit position (.finish (some opener))

/-- An instruction plays the same part in code that reaches further. -/
theorem Role.mono {all : List Instruction} {start limit position start' limit' : Nat}
    {instruction : Instruction} (role : Role all start limit position instruction)
    (earlier : start' ≤ start) (later : limit ≤ limit') :
    Role all start' limit' position instruction := by
  cases role with
  | plain instruction => exact .plain instruction
  | jump labels leap => exact .jump labels leap
  | opener construct ends opens => exact .opener construct (by omega) opens
  | divider construct starts => exact .divider construct (by omega)
  | closer construct starts => exact .closer construct (by omega)

/-- What plays a part in a stretch of code plays it in the code around. -/
theorem exists_role_mono {all : List Instruction} {start limit position start' limit' : Nat}
    (found : ∃ instruction, all[position]? = some instruction ∧
      Role all start limit position instruction)
    (earlier : start' ≤ start) (later : limit ≤ limit') :
    ∃ instruction, all[position]? = some instruction ∧
      Role all start' limit' position instruction := by
  obtain ⟨instruction, equation, role⟩ := found
  exact ⟨instruction, equation, role.mono earlier later⟩

/-- **Every instruction of code that stands somewhere plays a part in it.** -/
theorem Code.Placed.role {all : List Instruction} {depth : Nat} {code : Code depth}
    {labels : LabelStack depth} {start label position : Nat}
    (placed : code.Placed all labels start label) (reached : start ≤ position)
    (inside : position < start + code.size) :
    ∃ instruction, all[position]? = some instruction ∧
      Role all start (start + code.size) position instruction := by
  -- A position is that of the first instruction, lies in what follows it, or belongs to a block:
  -- to its opener, to a part of it, or to a mark behind a part.
  induction code generalizing start label with
  | empty =>
      rw [size_empty] at inside
      omega
  | plain offset instruction next nextInduction =>
      obtain ⟨here, after⟩ := placed.plain
      rw [size_plain] at inside ⊢
      rcases Nat.eq_or_lt_of_le reached with rfl | beyond
      · exact ⟨_, here, .plain instruction⟩
      · exact exists_role_mono (nextInduction after beyond (by omega)) (by omega) (by omega)
  | jump offset leap next nextInduction =>
      obtain ⟨here, after⟩ := placed.jump
      rw [size_jump] at inside ⊢
      rcases Nat.eq_or_lt_of_le reached with rfl | beyond
      · exact ⟨_, here, .jump labels leap⟩
      · exact exists_role_mono (nextInduction after beyond (by omega)) (by omega) (by omega)
  | block offset kind type body finish next bodyInduction nextInduction =>
      obtain ⟨opens, within, closes, after⟩ := placed.block
      have construct := Construct.block kind opens within closes
      rw [size_block] at inside ⊢
      obtain rfl | between | rfl | beyond : position = start ∨
          (start + 1 ≤ position ∧ position < start + 1 + body.size) ∨
          position = start + 1 + body.size ∨ start + 1 + body.size + 1 ≤ position := by omega
      · exact ⟨_, opens, .opener construct (by omega) (by simp)⟩
      · exact exists_role_mono (bodyInduction within between.1 between.2) (by omega) (by omega)
      · exact ⟨_, closes, .closer construct (Nat.le_refl _)⟩
      · exact exists_role_mono (nextInduction after beyond (by omega)) (by omega) (by omega)
  | ifThen offset type arm finish next armInduction nextInduction =>
      obtain ⟨opens, within, closes, after⟩ := placed.ifThen
      have construct := Construct.ifThen opens within closes
      rw [size_ifThen] at inside ⊢
      obtain rfl | between | rfl | beyond : position = start ∨
          (start + 1 ≤ position ∧ position < start + 1 + arm.size) ∨
          position = start + 1 + arm.size ∨ start + 1 + arm.size + 1 ≤ position := by omega
      · exact ⟨_, opens, .opener construct (by omega) rfl⟩
      · exact exists_role_mono (armInduction within between.1 between.2) (by omega) (by omega)
      · exact ⟨_, closes, .closer construct (Nat.le_refl _)⟩
      · exact exists_role_mono (nextInduction after beyond (by omega)) (by omega) (by omega)
  | ifElse offset type arm middle otherwise finish next armInduction otherwiseInduction
      nextInduction =>
      -- The marks get names: their positions are sums that `omega` would meet in every case.
      obtain ⟨divider, dividerEquation⟩ : ∃ divider, divider = start + 1 + arm.size := ⟨_, rfl⟩
      obtain ⟨closer, closerEquation⟩ : ∃ closer, closer = divider + 1 + otherwise.size := ⟨_, rfl⟩
      obtain ⟨opens, within, divides, withinOther, closes, after⟩ :=
        placed.ifElse dividerEquation closerEquation rfl
      have construct :=
        Construct.ifElse dividerEquation closerEquation opens within divides withinOther closes
      rw [size_ifElse] at inside ⊢
      obtain rfl | between | rfl | between | rfl | beyond : position = start ∨
          (start + 1 ≤ position ∧ position < start + 1 + arm.size) ∨ position = divider ∨
          (divider + 1 ≤ position ∧ position < divider + 1 + otherwise.size) ∨
          position = closer ∨ closer + 1 ≤ position := by omega
      · exact ⟨_, opens, .opener construct (by omega) rfl⟩
      · exact exists_role_mono (armInduction within between.1 between.2) (by omega) (by omega)
      · exact ⟨_, divides, .divider construct (Nat.le_refl _)⟩
      · exact exists_role_mono (otherwiseInduction withinOther between.1 between.2) (by omega)
          (by omega)
      · exact ⟨_, closes, .closer construct (Nat.le_refl _)⟩
      · exact exists_role_mono (nextInduction after beyond (by omega)) (by omega) (by omega)

/-! ## Linked code in its body -/

namespace Body

variable (locals : List ValueType) (code : Code 0) (finish : Nat)

/-- The instructions of linked code. -/
theorem toList_link :
    (code.link locals finish).instructions.toList =
      code.instructions .empty 0 0 ++ [.finish none] := by
  rw [Code.link_eq]

/-- Linked code has one instruction more than it takes places. -/
theorem size_link : (code.link locals finish).instructions.size = code.size + 1 := by
  rw [← Array.length_toList, toList_link, List.length_append, Code.length_instructions]
  rfl

/-- Linked code stands at the start of its body. -/
theorem placed_link : code.Placed (code.link locals finish).instructions.toList .empty 0 0 :=
  ⟨[.finish none], toList_link locals code finish⟩

/-- The last instruction of linked code closes the body. -/
theorem last_link :
    (code.link locals finish).instructions[code.size]? = some (.finish none) := by
  rw [← Array.getElem?_toList, toList_link, List.getElem?_append_right (by simp)]
  simp

end Body

end WasmCompiler
