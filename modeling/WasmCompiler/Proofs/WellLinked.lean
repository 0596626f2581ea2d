import WasmCompiler.Proofs.Placement
import WasmCompiler.Proofs.Structuring

/-! # Links of decoded bodies

The instructions of a body refer to each other by position. `Body.WellLinked` says what those
references mean in terms of the body alone: which marks belong together, how the blocks lie in each
other, and which blocks a branch counts. The blocks around a position are found by their intervals,
from the opener to the mark that ends the block (`Body.enclosing`).

* **`Body.WellLinked`** — the invariant;
* **`wellLinked_of_decodeBody`** — every body that bytes decode to satisfies it. -/

namespace WasmCompiler

namespace Body

/-! ## Blocks around a position -/

section

variable (body : Body)

/-- The position of the mark that ends the block opened at a position. -/
def finishOf? (opener : Nat) : Option Nat :=
  body.instructions[opener]?.bind Instruction.finish?

/-- The position of the second arm of the conditional block opened at a position. -/
def armOf? (opener : Nat) : Option Nat :=
  body.instructions[opener]?.bind Instruction.arm?

/-- Whether the block opened at an earlier position, or there, reaches as far as a position. -/
def spans (position opener : Nat) : Bool :=
  match body.finishOf? opener with
  | some closer => position ≤ closer
  | none => false

/-- The openers before a limit whose blocks reach as far as a position, the last one first. -/
def spanning (limit position : Nat) : List Nat :=
  (List.range limit).reverse.filter (body.spans position)

/-- **The blocks whose interval contains a position**, by their openers, innermost first. -/
def enclosing (position : Nat) : List Nat :=
  body.spanning (position + 1) position

/-- **Where a branch to a block goes** from a position: to the opener, or to the mark between the
arms if the position lies in the second arm. -/
def branchTarget (position opener : Nat) : Nat :=
  match body.armOf? opener with
  | some arm => if arm < position then arm else opener
  | none => opener

end

/-! ## The invariant -/

/-- **What links mean.** The marks of a body belong together in blocks that lie in each other, and
branches count the blocks around them. -/
structure WellLinked (body : Body) : Prop where
  /-- Every instruction has an offset. -/
  offsets_size : body.offsets.size = body.instructions.size
  /-- The offsets ascend. -/
  offsets_ascend : body.offsets.toList.Pairwise (· < ·)
  /-- The last instruction, and no other, closes the body. -/
  closed : ∃ last, body.instructions.size = last + 1 ∧
    ∀ position : Nat, body.instructions[position]? = some (.finish none) ↔ position = last
  /-- An opener refers to a later mark, which refers back to it. -/
  opener_finish : ∀ (opener : Nat) (instruction : Instruction),
    body.instructions[opener]? = some instruction → instruction.isOpener = true →
    ∃ closer, instruction.finish? = some closer ∧ opener < closer ∧
      body.instructions[closer]? = some (.finish (some opener))
  /-- A mark that ends a block does so for its opener and for no other. -/
  finish_opener : ∀ closer opener : Nat,
    body.instructions[closer]? = some (.finish (some opener)) →
      ∀ other, body.finishOf? other = some closer ↔ other = opener
  /-- A conditional block refers to a second arm exactly if that arm refers back to it. -/
  arm_iff : ∀ (opener : Nat) (type : BlockType) (label : Nat) (closer arm : Option Nat),
    body.instructions[opener]? = some (.ifThen type label closer arm) →
    ∀ middle : Nat, arm = some middle ↔
      ∃ second, body.instructions[middle]? = some (.otherwise second opener)
  /-- A second arm starts inside its block. -/
  arm_between : ∀ opener middle, body.armOf? opener = some middle →
    ∃ closer, body.finishOf? opener = some closer ∧ opener < middle ∧ middle < closer
  /-- A second arm belongs to one conditional block and to no other. -/
  arm_opener : ∀ middle label opener : Nat,
    body.instructions[middle]? = some (.otherwise label opener) →
    ∀ other, body.armOf? other = some middle ↔ other = opener
  /-- Blocks lie in each other or apart. -/
  nested : ∀ outer outerCloser inner innerCloser, body.finishOf? outer = some outerCloser →
    body.finishOf? inner = some innerCloser → outer < inner →
    innerCloser < outerCloser ∨ outerCloser < inner
  /-- No position lies in more than 1024 blocks. -/
  shallow : ∀ position, (body.enclosing position).length ≤ 1024
  /-- A branch goes back to the block that it counts out to. -/
  branches : ∀ (position : Nat) (instruction : Instruction) (branch : Branch),
    body.instructions[position]? = some instruction → branch ∈ instruction.branches →
    branch.target < position ∧
      ∃ opener, (body.enclosing position)[branch.depth]? = some opener ∧
        branch.target = body.branchTarget position opener
  /-- The labels are numbered in the order of the instructions that carry them. -/
  labels : body.instructions.toList.filterMap Instruction.label? = List.range body.labelCount

/-! ## Spanning -/

section

variable {body : Body} {opener closer : Nat} {divider : Option Nat}

/-- The opener of a whole block refers to its end. -/
theorem finishOf?_of_construct
    (construct : Construct body.instructions.toList opener divider closer) :
    body.finishOf? opener = some closer := by
  obtain ⟨instruction, found, -, finish, -⟩ := construct.opens
  rw [finishOf?, ← Array.getElem?_toList, found, Option.bind_some, finish]

/-- The opener of a whole block refers to the mark between its arms. -/
theorem armOf?_of_construct
    (construct : Construct body.instructions.toList opener divider closer) :
    body.armOf? opener = divider := by
  obtain ⟨instruction, found, -, -, arm⟩ := construct.opens
  rw [armOf?, ← Array.getElem?_toList, found, Option.bind_some, arm]

/-- One more position before the limit adds its own block if that reaches far enough. -/
theorem spanning_succ (limit position : Nat) :
    body.spanning (limit + 1) position =
      if body.spans position limit then limit :: body.spanning limit position
      else body.spanning limit position := by
  simp only [spanning, List.range_succ, List.reverse_append, List.reverse_cons, List.reverse_nil,
    List.nil_append, List.cons_append, List.filter_cons]

/-- A position without an opener spans nothing. -/
theorem spans_eq_false {position : Nat} (noOpener : body.finishOf? opener = none) :
    body.spans position opener = false := by
  rw [spans, noOpener]

/-- Positions whose blocks end before a position do not count. -/
theorem spanning_eq_of_ended {start limit position : Nat} (ordered : start ≤ limit)
    (ended : ∀ opener, start ≤ opener → opener < limit → body.spans position opener = false) :
    body.spanning limit position = body.spanning start position := by
  induction limit with
  | zero =>
      rw [Nat.le_zero.mp ordered]
  | succ limit limitInduction =>
      rcases Nat.eq_or_lt_of_le ordered with rfl | before
      · rfl
      · rw [spanning_succ, ended limit (by omega) (by omega), if_neg (by simp)]
        exact limitInduction (by omega) fun opener reached below => ended opener reached (by omega)

end

/-! ## Surroundings -/

/-- **The blocks around a stretch of instructions**: those open at its start reach beyond it, and
the openers that branches refer to are theirs. -/
structure Surrounded (body : Body) {depth : Nat} (labels : LabelStack depth) (outer : List Nat)
    (start limit : Nat) : Prop where
  /-- The open blocks. -/
  spanning : ∀ position, start ≤ position → position < limit →
    body.spanning start position = outer
  /-- The openers that branches refer to. -/
  targets : ∀ position, start ≤ position → position < limit →
    labels.toList = outer.map (body.branchTarget position)
  /-- Those openers come before. -/
  earlier : ∀ target ∈ labels.toList, target < start

namespace Surrounded

variable {body : Body} {depth : Nat} {labels : LabelStack depth} {outer : List Nat}
  {start limit : Nat}

/-- Past blocks that have ended the surroundings are the same. -/
theorem skip (surrounded : body.Surrounded labels outer start limit) {later : Nat}
    (ordered : start ≤ later)
    (ended : ∀ opener closer, start ≤ opener → opener < later →
      body.finishOf? opener = some closer → closer < later) :
    body.Surrounded labels outer later limit where
  spanning := by
    intro position reached below
    rw [spanning_eq_of_ended ordered, surrounded.spanning position (by omega) below]
    intro opener from_start to_later
    unfold spans
    split
    · next closer equation =>
        have := ended opener closer from_start to_later equation
        simp only [decide_eq_false_iff_not]
        omega
    · rfl
  targets := by
    intro position reached below
    exact surrounded.targets position (by omega) below
  earlier := by
    intro target member
    exact Nat.lt_of_lt_of_le (surrounded.earlier target member) ordered

/-- A shorter stretch has the same surroundings. -/
theorem mono (surrounded : body.Surrounded labels outer start limit) {last : Nat}
    (shorter : last ≤ limit) : body.Surrounded labels outer start last where
  spanning := fun position reached below => surrounded.spanning position reached (by omega)
  targets := fun position reached below => surrounded.targets position reached (by omega)
  earlier := surrounded.earlier

/-- Past an instruction that opens no block the surroundings are the same. -/
theorem step (surrounded : body.Surrounded labels outer start limit)
    (noOpener : body.finishOf? start = none) :
    body.Surrounded labels outer (start + 1) limit := by
  refine surrounded.skip (Nat.le_succ start) fun opener closer from_start to_later equation => ?_
  obtain rfl : opener = start := by omega
  rw [noOpener] at equation
  cases equation

/-- Inside a block there is that block around, and what is around the block. -/
theorem enter (surrounded : body.Surrounded labels outer start limit)
    {closer target later last : Nat} (opens : body.finishOf? start = some closer)
    (after : start < later) (within : last ≤ closer + 1) (inside : closer < limit)
    (earlier : target < later)
    (ended : ∀ opener closer, start < opener → opener < later →
      body.finishOf? opener = some closer → closer < later)
    (targets : ∀ position, later ≤ position → position < last →
      body.branchTarget position start = target) :
    body.Surrounded (labels.push target) (start :: outer) later last where
  spanning := by
    intro position reached below
    have opened : body.spanning (start + 1) position = start :: outer := by
      have reaches : body.spans position start = true := by
        simp only [spans, opens, decide_eq_true_eq]
        omega
      rw [spanning_succ, reaches, if_pos rfl,
        surrounded.spanning position (by omega) (by omega)]
    rw [spanning_eq_of_ended after, opened]
    intro opener from_start to_later
    unfold spans
    split
    · next closer equation =>
        have := ended opener closer from_start to_later equation
        simp only [decide_eq_false_iff_not]
        omega
    · rfl
  targets := by
    intro position reached below
    rw [LabelStack.toList, List.map_cons, targets position reached below,
      surrounded.targets position (by omega) (by omega)]
  earlier := by
    intro other member
    rcases List.mem_cons.mp member with rfl | member
    · exact earlier
    · exact Nat.lt_trans (surrounded.earlier other member) after

/-- As many blocks are around as branches can name. -/
theorem length_outer (surrounded : body.Surrounded labels outer start limit)
    (nonempty : start < limit) : outer.length = depth := by
  rw [← labels.length_toList, surrounded.targets start (Nat.le_refl _) nonempty, List.length_map]

end Surrounded

/-- **Whether branches are oriented** at a position: at most `limit` blocks are around, and branches
go back to the blocks that they count out to. -/
structure Oriented (body : Body) (limit position : Nat) : Prop where
  /-- Few blocks are around. -/
  shallow : (body.enclosing position).length ≤ limit
  /-- Branches refer to blocks around. -/
  branches : ∀ (instruction : Instruction) (branch : Branch),
    body.instructions[position]? = some instruction → branch ∈ instruction.branches →
    branch.target < position ∧
      ∃ opener, (body.enclosing position)[branch.depth]? = some opener ∧
        branch.target = body.branchTarget position opener

/-- An instruction without branches is oriented if few blocks are around. -/
theorem Oriented.of_nil {body : Body} {limit position : Nat} {instruction : Instruction}
    (found : body.instructions.toList[position]? = some instruction)
    (none : instruction.branches = []) (shallow : (body.enclosing position).length ≤ limit) :
    body.Oriented limit position where
  shallow := shallow
  branches := by
    intro other branch otherFound member
    rw [← Array.getElem?_toList, found] at otherFound
    cases otherFound
    rw [none] at member
    cases member

end Body

/-- The branches of a jump go to levels of the openers around. -/
theorem Jump.exists_of_mem_branches {depth : Nat} {labels : LabelStack depth} {leap : Jump depth}
    {branch : Branch} (member : branch ∈ (leap.link labels).branches) :
    ∃ level, branch = labels.branch level := by
  cases leap with
  | always level => exact ⟨level, List.mem_singleton.mp member⟩
  | ifTrue level => exact ⟨level, List.mem_singleton.mp member⟩
  | table levels fallback =>
      rcases List.mem_append.mp member with member | member
      · obtain ⟨level, -, rfl⟩ := List.mem_map.mp member
        exact ⟨level, rfl⟩
      · exact ⟨fallback, List.mem_singleton.mp member⟩

/-- The opener of a level is the one that far down among the openers. -/
theorem LabelStack.getElem?_toList {depth : Nat} (labels : LabelStack depth) (level : Fin depth) :
    labels.toList[level.val]? = some (labels.resolve level) := by
  rw [← labels.resolve?_eq_getElem?, resolve?, dif_pos level.isLt]

namespace Code.Placed

open Body

variable {body : Body} {depth : Nat} {labels : LabelStack depth} {start label : Nat}

/-- The blocks of code that stands somewhere end in it. -/
theorem ended {code : Code depth} (placed : code.Placed body.instructions.toList labels start label)
    {opener closer : Nat} (reached : start ≤ opener) (inside : opener < start + code.size)
    (finish : body.finishOf? opener = some closer) : closer < start + code.size := by
  obtain ⟨instruction, found, role⟩ := placed.role reached inside
  have finishEquation := finish
  rw [finishOf?, ← Array.getElem?_toList, found, Option.bind_some] at finishEquation
  cases role with
  | plain instruction => cases finishEquation
  | jump labels leap => cases leap <;> cases finishEquation
  | opener construct ends opens =>
      rw [finishOf?_of_construct construct] at finish
      cases finish
      exact ends
  | divider construct starts => cases finishEquation
  | closer construct starts => cases finishEquation

/-- The blocks inside a whole block end in it. -/
theorem ended_of_construct {opener closer inner innerCloser : Nat} {divider : Option Nat}
    (construct : Construct body.instructions.toList opener divider closer)
    (reached : opener ≤ inner) (inside : inner < closer + 1)
    (finish : body.finishOf? inner = some innerCloser) : innerCloser < closer + 1 := by
  have outermost := finishOf?_of_construct construct
  have last : body.finishOf? closer = none := by
    rw [finishOf?, ← Array.getElem?_toList, construct.closes.2]
    rfl
  rcases Nat.eq_or_lt_of_le reached with rfl | beyond
  · rw [outermost] at finish
    cases finish
    exact Nat.lt_succ_self _
  · rcases Nat.eq_or_lt_of_le (Nat.le_of_lt_succ inside) with rfl | before
    · rw [last] at finish
      cases finish
    · cases construct with
      | block kind opens placed closes =>
          exact Nat.lt_succ_of_lt (placed.ended beyond before finish)
      | ifThen opens placed closes =>
          exact Nat.lt_succ_of_lt (placed.ended beyond before finish)
      | ifElse dividerEquation closerEquation opens placed divides placedOther closes =>
          rename_i divider _ _ _ _
          obtain before | same | after := Nat.lt_trichotomy inner divider
          · have := placed.ended beyond (by omega) finish
            omega
          · rw [same, finishOf?, ← Array.getElem?_toList, divides] at finish
            cases finish
          · have := placedOther.ended after (by omega) finish
            omega

/-- At the opener of a block, that block and those around it are around. -/
theorem oriented_opener {outer : List Nat} {divider : Option Nat} {closer last limit : Nat}
    (surrounded : body.Surrounded labels outer start last)
    (construct : Construct body.instructions.toList start divider closer)
    (inside : closer < last) (few : depth < limit) : body.Oriented limit start := by
  obtain ⟨instruction, found, isOpener, -, -⟩ := construct.opens
  have ordered := construct.closes.1
  have spans : body.spans start start = true := by
    simp only [Body.spans, finishOf?_of_construct construct, decide_eq_true_eq]
    omega
  have noBranches : instruction.branches = [] := by
    cases instruction <;> first | rfl | cases isOpener
  refine Oriented.of_nil found noBranches ?_
  rw [enclosing, spanning_succ, spans, if_pos rfl,
    surrounded.spanning start (Nat.le_refl _) (by omega), List.length_cons,
    surrounded.length_outer (by omega)]
  exact few

/-- Where no block is opened, those around are the ones that the code before leaves open. -/
theorem enclosing_of_surrounded {outer : List Nat} {instruction : Instruction} {last : Nat}
    (surrounded : body.Surrounded labels outer start last)
    (found : body.instructions.toList[start]? = some instruction)
    (noFinish : instruction.finish? = none) (inside : start < last) :
    body.enclosing start = outer := by
  have spans : body.spans start start = false := by
    apply spans_eq_false
    rw [finishOf?, ← Array.getElem?_toList, found, Option.bind_some, noFinish]
  rw [enclosing, spanning_succ, spans, if_neg (by simp),
    surrounded.spanning start (Nat.le_refl _) inside]

/-- At a mark, and at an instruction without block structure, nothing is added to what is around. -/
theorem oriented_mark {outer : List Nat} {instruction : Instruction} {last limit : Nat}
    (surrounded : body.Surrounded labels outer start last)
    (found : body.instructions.toList[start]? = some instruction)
    (noFinish : instruction.finish? = none) (noBranches : instruction.branches = [])
    (inside : start < last) (few : depth ≤ limit) : body.Oriented limit start := by
  refine Oriented.of_nil found noBranches ?_
  rw [enclosing_of_surrounded surrounded found noFinish inside, surrounded.length_outer inside]
  exact few

/-- A jump goes to openers around it. -/
theorem oriented_jump {outer : List Nat} {leap : Jump depth} {last limit : Nat}
    (surrounded : body.Surrounded labels outer start last)
    (found : body.instructions.toList[start]? = some (leap.link labels))
    (inside : start < last) (few : depth ≤ limit) : body.Oriented limit start := by
  have around := enclosing_of_surrounded surrounded found (leap.finish?_link labels) inside
  refine ⟨?_, ?_⟩
  · rw [around, surrounded.length_outer inside]
    exact few
  · intro instruction branch otherFound member
    rw [← Array.getElem?_toList, found] at otherFound
    cases otherFound
    obtain ⟨level, rfl⟩ := Jump.exists_of_mem_branches member
    have target := labels.getElem?_toList level
    refine ⟨surrounded.earlier _ (List.mem_of_getElem? target), ?_⟩
    rw [surrounded.targets start (Nat.le_refl _) inside, List.getElem?_map] at target
    obtain ⟨opener, openerEquation, targetEquation⟩ := Option.map_eq_some_iff.mp target
    refine ⟨opener, ?_, targetEquation.symm⟩
    rw [around]
    exact openerEquation

/-- Past a whole block the surroundings are the same. -/
theorem surrounded_past {outer : List Nat} {divider : Option Nat} {closer last : Nat}
    (surrounded : body.Surrounded labels outer start last)
    (construct : Construct body.instructions.toList start divider closer) :
    body.Surrounded labels outer (closer + 1) last := by
  have ordered := construct.closes.1
  exact surrounded.skip (by omega) fun opener other from_start to_later =>
    ended_of_construct construct from_start to_later

/-- In the first part of a block, branches to it go back to its opener. -/
theorem surrounded_first {outer : List Nat} {divider : Option Nat} {closer last limit : Nat}
    (surrounded : body.Surrounded labels outer start limit)
    (construct : Construct body.instructions.toList start divider closer) (inside : closer < limit)
    (within : last ≤ closer + 1) (before : ∀ middle, divider = some middle → last ≤ middle + 1) :
    body.Surrounded (labels.push start) (start :: outer) (start + 1) last := by
  refine surrounded.enter (finishOf?_of_construct construct) (Nat.lt_succ_self start) within inside
    (Nat.lt_succ_self start) (fun opener other _ _ _ => by omega) fun position _ below => ?_
  rw [branchTarget, armOf?_of_construct construct]
  cases divider with
  | none => rfl
  | some middle =>
      have := before middle rfl
      exact if_neg (by omega)

/-- A part of a block is oriented with the mark behind it. -/
theorem oriented_part {outer : List Nat} {part : Code depth} {mark : Instruction}
    {limit position : Nat} (placed : part.Placed body.instructions.toList labels start label)
    (surrounded : body.Surrounded labels outer start (start + part.size + 1))
    (found : body.instructions.toList[start + part.size]? = some mark)
    (noFinish : mark.finish? = none) (noBranches : mark.branches = []) (few : depth ≤ limit)
    (inside : position < start + part.size + 1)
    (oriented : body.Surrounded labels outer start (start + part.size) →
      position < start + part.size → body.Oriented limit position) :
    body.Oriented limit position := by
  rcases Nat.eq_or_lt_of_le (Nat.le_of_lt_succ inside) with rfl | before
  · have onward := surrounded.skip (Nat.le_add_right _ _) fun opener closer from_start to_later =>
      placed.ended from_start to_later
    exact oriented_mark onward found noFinish noBranches (Nat.lt_succ_self _) few
  · exact oriented (surrounded.mono (Nat.le_succ _)) before

/-- **Branches of code that stands somewhere are oriented** if the openers that it was linked with
are those around it. -/
theorem oriented {code : Code depth} {limit position : Nat} {outer : List Nat}
    (placed : code.Placed body.instructions.toList labels start label)
    (surrounded : body.Surrounded labels outer start (start + code.size))
    (nested : code.NestedWithin limit) (few : depth ≤ limit) (reached : start ≤ position)
    (inside : position < start + code.size) : body.Oriented limit position := by
  -- The surroundings are carried along: past an instruction or a whole block they stay as they are,
  -- and a part of a block has the block in front of them.
  induction code generalizing start label outer with
  | empty =>
      rw [size_empty] at inside
      omega
  | plain offset instruction next nextInduction =>
      obtain ⟨here, after⟩ := placed.plain
      rw [size_plain] at inside surrounded
      rcases Nat.eq_or_lt_of_le reached with rfl | beyond
      · exact oriented_mark surrounded here rfl rfl inside few
      · have onward := surrounded.step (by
          rw [finishOf?, ← Array.getElem?_toList, here]
          rfl)
        exact nextInduction after (onward.mono (by omega)) nested few beyond (by omega)
  | jump offset leap next nextInduction =>
      obtain ⟨here, after⟩ := placed.jump
      rw [size_jump] at inside surrounded
      rcases Nat.eq_or_lt_of_le reached with rfl | beyond
      · exact oriented_jump surrounded here inside few
      · have onward := surrounded.step (by
          rw [finishOf?, ← Array.getElem?_toList, here, Option.bind_some, leap.finish?_link])
        exact nextInduction after (onward.mono (by omega)) nested few beyond (by omega)
  | block offset kind type inner finish next innerInduction nextInduction =>
      obtain ⟨opens, within, closes, after⟩ := placed.block
      obtain ⟨below, innerNested, nextNested⟩ := nested
      have construct := Construct.block kind opens within closes
      rw [size_block] at inside surrounded
      obtain rfl | between | beyond : position = start ∨
          (start + 1 ≤ position ∧ position < start + 1 + inner.size + 1) ∨
          start + 1 + inner.size + 1 ≤ position := by omega
      · exact oriented_opener surrounded construct (by omega) below
      · have inward := surrounded_first surrounded construct (by omega) (Nat.le_refl _) nofun
        exact oriented_part within inward closes rfl rfl below between.2 fun inward before =>
          innerInduction within inward innerNested below between.1 before
      · have onward := surrounded_past surrounded construct
        exact nextInduction after (onward.mono (by omega)) nextNested few beyond (by omega)
  | ifThen offset type arm finish next armInduction nextInduction =>
      obtain ⟨opens, within, closes, after⟩ := placed.ifThen
      obtain ⟨below, armNested, nextNested⟩ := nested
      have construct := Construct.ifThen opens within closes
      rw [size_ifThen] at inside surrounded
      obtain rfl | between | beyond : position = start ∨
          (start + 1 ≤ position ∧ position < start + 1 + arm.size + 1) ∨
          start + 1 + arm.size + 1 ≤ position := by omega
      · exact oriented_opener surrounded construct (by omega) below
      · have inward := surrounded_first surrounded construct (by omega) (Nat.le_refl _) nofun
        exact oriented_part within inward closes rfl rfl below between.2 fun inward before =>
          armInduction within inward armNested below between.1 before
      · have onward := surrounded_past surrounded construct
        exact nextInduction after (onward.mono (by omega)) nextNested few beyond (by omega)
  | ifElse offset type arm middle otherwise finish next armInduction otherwiseInduction
      nextInduction =>
      obtain ⟨opens, within, divides, withinOther, closes, after⟩ := placed.ifElse rfl rfl rfl
      obtain ⟨below, armNested, otherwiseNested, nextNested⟩ := nested
      have construct := Construct.ifElse rfl rfl opens within divides withinOther closes
      rw [size_ifElse] at inside surrounded
      obtain rfl | between | between | beyond : position = start ∨
          (start + 1 ≤ position ∧ position < start + 1 + arm.size + 1) ∨
          (start + 1 + arm.size + 1 ≤ position ∧
            position < start + 1 + arm.size + 1 + otherwise.size + 1) ∨
          start + 1 + arm.size + 1 + otherwise.size + 1 ≤ position := by omega
      · exact oriented_opener surrounded construct (by omega) below
      · have inward : body.Surrounded (labels.push start) (start :: outer) (start + 1)
            (start + 1 + arm.size + 1) := by
          refine surrounded_first surrounded construct (by omega) (by omega) ?_
          rintro middle ⟨⟩
          exact Nat.le_refl _
        exact oriented_part within inward divides rfl rfl below between.2 fun inward before =>
          armInduction within inward armNested below between.1 before
      · -- In the second arm, branches to the block go back to the mark between the arms.
        have inward := surrounded.enter (finishOf?_of_construct construct) (by omega)
          (Nat.le_refl _) (by omega) (Nat.lt_succ_self (start + 1 + arm.size))
          (fun opener closer from_start to_later finishes => by
            rcases Nat.eq_or_lt_of_le (Nat.le_of_lt_succ to_later) with rfl | before
            · rw [finishOf?, ← Array.getElem?_toList, divides] at finishes
              cases finishes
            · have := within.ended from_start before finishes
              omega)
          (fun position reached _ => by
            rw [branchTarget, armOf?_of_construct construct]
            exact if_pos (Nat.lt_of_succ_le reached))
        exact oriented_part withinOther inward closes rfl rfl below between.2 fun inward before =>
          otherwiseInduction withinOther inward otherwiseNested below between.1 before
      · have onward := surrounded_past surrounded construct
        exact nextInduction after (onward.mono (by omega)) nextNested few beyond (by omega)

end Code.Placed

/-! ## Labels -/

/-- **The labels of a sequence are numbered in order**, from its first label on. -/
theorem Code.labels_instructions {depth : Nat} (code : Code depth) (labels : LabelStack depth)
    (position label : Nat) :
    (code.instructions labels position label).filterMap Instruction.label? =
      List.range' label code.labelCount := by
  induction code generalizing position label with
  | empty => rfl
  | plain offset instruction next nextInduction =>
      rw [instructions, labelCount, List.filterMap_cons_none rfl, nextInduction]
  | jump offset leap next nextInduction =>
      rw [instructions, labelCount, List.filterMap_cons_none (leap.label?_link labels),
        nextInduction]
  | block offset kind type body finish next bodyInduction nextInduction =>
      rw [labelCount, ← List.range'_append_1, ← List.range'_append_1, List.range'_one,
        ← Nat.add_assoc, ← bodyInduction (labels.push position) (position + 1),
        ← nextInduction labels (position + 1 + body.size + 1)]
      cases kind <;>
        simp only [instructions, BlockKind.opener, List.filterMap_cons, List.filterMap_append,
          Instruction.label?, List.cons_append, List.nil_append]
  | ifThen offset type arm finish next armInduction nextInduction =>
      rw [labelCount, ← List.range'_append_1, ← List.range'_append_1, List.range'_one,
        ← Nat.add_assoc, ← armInduction (labels.push position) (position + 1),
        ← nextInduction labels (position + 1 + arm.size + 1)]
      simp only [instructions, List.filterMap_cons, List.filterMap_append, Instruction.label?,
        List.cons_append, List.nil_append]
  | ifElse offset type arm middle otherwise finish next armInduction otherwiseInduction
      nextInduction =>
      rw [labelCount, ← List.range'_append_1, ← List.range'_append_1, ← List.range'_append_1,
        ← List.range'_append_1, List.range'_one, List.range'_one]
      simp only [← Nat.add_assoc]
      rw [← armInduction (labels.push position) (position + 1),
        ← otherwiseInduction (labels.push (position + 1 + arm.size)) (position + 1 + arm.size + 1),
        ← nextInduction labels (position + 1 + arm.size + 1 + otherwise.size + 1)]
      simp only [instructions, List.filterMap_cons, List.filterMap_append, Instruction.label?,
        List.cons_append, List.nil_append, List.append_assoc]

/-! ## Linked bodies -/

namespace Body

variable {locals : List ValueType} {code : Code 0} {finish : Nat}

/-- An instruction of linked code plays a part in it, or it is the one that closes the body. -/
theorem role_link {position : Nat} {instruction : Instruction}
    (found : (code.link locals finish).instructions[position]? = some instruction) :
    position < code.size ∧
        Role (code.link locals finish).instructions.toList 0 code.size position instruction ∨
      position = code.size ∧ instruction = .finish none := by
  have inside := (Array.getElem?_eq_some_iff.mp found).1
  rw [size_link] at inside
  rcases Nat.eq_or_lt_of_le (Nat.le_of_lt_succ inside) with rfl | before
  · rw [last_link] at found
    cases found
    exact .inr ⟨rfl, rfl⟩
  · obtain ⟨other, otherFound, role⟩ :=
      (placed_link locals code finish).role (Nat.zero_le position) (by omega)
    rw [Array.getElem?_toList, found] at otherFound
    cases otherFound
    rw [Nat.zero_add] at role
    exact .inl ⟨before, role⟩

/-- An opener of linked code opens a whole block. -/
theorem construct_of_isOpener {opener : Nat} {instruction : Instruction}
    (found : (code.link locals finish).instructions[opener]? = some instruction)
    (opens : instruction.isOpener = true) :
    ∃ divider closer,
      Construct (code.link locals finish).instructions.toList opener divider closer := by
  rcases role_link found with ⟨-, role⟩ | ⟨-, rfl⟩
  · cases role with
    | plain instruction => cases opens
    | jump labels leap => cases leap <;> cases opens
    | opener construct ends _ => exact ⟨_, _, construct⟩
    | divider construct starts => cases opens
    | closer construct starts => cases opens
  · cases opens

/-- A mark of linked code that ends a block ends a whole one. -/
theorem construct_of_finish {closer : Nat} {target : Option Nat}
    (found : (code.link locals finish).instructions[closer]? = some (.finish target)) :
    (∃ opener divider, target = some opener ∧
        Construct (code.link locals finish).instructions.toList opener divider closer) ∨
      closer = code.size ∧ target = none := by
  rcases role_link found with ⟨-, role⟩ | ⟨last, equation⟩
  · generalize equation : Instruction.finish target = instruction at role
    cases role with
    | plain instruction => cases equation
    | jump labels leap => cases leap <;> cases equation
    | opener construct ends opens =>
        rw [← equation] at opens
        cases opens
    | divider construct starts => cases equation
    | closer construct starts =>
        cases equation
        exact .inl ⟨_, _, rfl, construct⟩
  · cases equation
    exact .inr ⟨last, rfl⟩

/-- A mark of linked code between two arms divides a whole block. -/
theorem construct_of_otherwise {middle label opener : Nat}
    (found : (code.link locals finish).instructions[middle]? = some (.otherwise label opener)) :
    ∃ closer,
      Construct (code.link locals finish).instructions.toList opener (some middle) closer := by
  rcases role_link found with ⟨-, role⟩ | ⟨-, equation⟩
  · generalize equation : Instruction.otherwise label opener = instruction at role
    cases role with
    | plain instruction => cases equation
    | jump labels leap => cases leap <;> cases equation
    | opener construct ends opens =>
        rw [← equation] at opens
        cases opens
    | divider construct starts =>
        cases equation
        exact ⟨_, construct⟩
    | closer construct starts => cases equation
  · cases equation

/-- What refers to an end opens a whole block that has it. -/
theorem construct_of_finishOf? {opener closer : Nat}
    (finishes : (code.link locals finish).finishOf? opener = some closer) :
    closer < code.size ∧
      ∃ divider, Construct (code.link locals finish).instructions.toList opener divider closer := by
  obtain ⟨instruction, found, finishEquation⟩ := Option.bind_eq_some_iff.mp finishes
  rcases role_link found with ⟨-, role⟩ | ⟨-, rfl⟩
  · cases role with
    | plain instruction => cases finishEquation
    | jump labels leap => cases leap <;> cases finishEquation
    | opener construct ends opens =>
        rw [finishOf?_of_construct construct] at finishes
        cases finishes
        exact ⟨ends, _, construct⟩
    | divider construct starts => cases finishEquation
    | closer construct starts => cases finishEquation
  · cases finishEquation

/-- What refers to a second arm opens a whole block that has it. -/
theorem construct_of_armOf? {opener middle : Nat}
    (arms : (code.link locals finish).armOf? opener = some middle) :
    ∃ closer,
      Construct (code.link locals finish).instructions.toList opener (some middle) closer := by
  obtain ⟨instruction, found, armEquation⟩ := Option.bind_eq_some_iff.mp arms
  rcases role_link found with ⟨-, role⟩ | ⟨-, rfl⟩
  · cases role with
    | plain instruction => cases armEquation
    | jump labels leap => cases leap <;> cases armEquation
    | opener construct ends opens =>
        rw [armOf?_of_construct construct] at arms
        cases arms
        exact ⟨_, construct⟩
    | divider construct starts => cases armEquation
    | closer construct starts => cases armEquation
  · cases armEquation

/-- Nothing is around a position behind linked code, and nothing around its last instruction. -/
theorem enclosing_link_of_le {position : Nat} (behind : code.size ≤ position) :
    (code.link locals finish).enclosing position = [] := by
  refine List.filter_eq_nil_iff.mpr fun opener _ reaches => ?_
  unfold spans at reaches
  split at reaches
  · next closer finishes =>
      have := (construct_of_finishOf? finishes).1
      have := of_decide_eq_true reaches
      omega
  · cases reaches

/-- Every position of linked code is oriented. -/
theorem oriented_link (nested : code.NestedWithin Binary.maxNesting) {position : Nat}
    (inside : position < code.size) :
    (code.link locals finish).Oriented Binary.maxNesting position := by
  have surrounded : (code.link locals finish).Surrounded .empty [] 0 (0 + code.size) :=
    { spanning := fun _ _ _ => rfl
      targets := fun _ _ _ => rfl
      earlier := fun _ member => by cases member }
  exact (placed_link locals code finish).oriented surrounded nested (Nat.zero_le _)
    (Nat.zero_le _) (by omega)

/-- **Linking establishes the invariant** for code that is nested within the limit and whose offsets
ascend. -/
theorem wellLinked_link (nested : code.NestedWithin Binary.maxNesting)
    (sorted : (code.offsets ++ [finish]).Pairwise (· < ·)) :
    (code.link locals finish).WellLinked where
  -- A mark belongs to the whole block that linking put it into (`construct_of_finish`,
  -- `construct_of_otherwise`, `construct_of_isOpener`); each field is read off that block.
  offsets_size := by
    rw [size_link, Code.link_eq, List.size_toArray, List.length_append, Code.length_offsets]
    rfl
  offsets_ascend := by
    rw [Code.link_eq]
    exact sorted
  closed := by
    refine ⟨code.size, size_link locals code finish, fun position => ⟨fun found => ?_, ?_⟩⟩
    · rcases construct_of_finish found with ⟨opener, divider, equation, -⟩ | ⟨last, -⟩
      · cases equation
      · exact last
    · rintro rfl
      exact last_link locals code finish
  opener_finish := by
    intro opener instruction found opens
    obtain ⟨divider, closer, construct⟩ := construct_of_isOpener found opens
    obtain ⟨other, otherFound, -, finishes, -⟩ := construct.opens
    rw [Array.getElem?_toList, found] at otherFound
    cases otherFound
    obtain ⟨after, closes⟩ := construct.closes
    rw [Array.getElem?_toList] at closes
    exact ⟨closer, finishes, after, closes⟩
  finish_opener := by
    intro closer opener found other
    constructor
    · intro finishes
      obtain ⟨-, _, construct⟩ := construct_of_finishOf? finishes
      have closes := construct.closes.2
      rw [Array.getElem?_toList, found] at closes
      cases closes
      rfl
    · rintro rfl
      rcases construct_of_finish found with ⟨opener, divider, equation, construct⟩ | ⟨-, none⟩
      · cases equation
        exact finishOf?_of_construct construct
      · cases none
  arm_iff := by
    intro opener type label closer arm found middle
    have armEquation : (code.link locals finish).armOf? opener = arm := by
      rw [armOf?, found]
      rfl
    constructor
    · rintro rfl
      obtain ⟨_, construct⟩ := construct_of_armOf? armEquation
      obtain ⟨-, -, second, divides⟩ := construct.divides
      rw [Array.getElem?_toList] at divides
      exact ⟨second, divides⟩
    · rintro ⟨second, divides⟩
      obtain ⟨_, construct⟩ := construct_of_otherwise divides
      rw [← armEquation, armOf?_of_construct construct]
  arm_between := by
    intro opener middle arms
    obtain ⟨closer, construct⟩ := construct_of_armOf? arms
    obtain ⟨after, before, -⟩ := construct.divides
    exact ⟨closer, finishOf?_of_construct construct, after, before⟩
  arm_opener := by
    intro middle label opener found other
    constructor
    · intro arms
      obtain ⟨_, construct⟩ := construct_of_armOf? arms
      obtain ⟨-, -, second, divides⟩ := construct.divides
      rw [Array.getElem?_toList, found] at divides
      cases divides
      rfl
    · rintro rfl
      obtain ⟨_, construct⟩ := construct_of_otherwise found
      exact armOf?_of_construct construct
  nested := by
    intro outer outerCloser inner innerCloser outerFinish innerFinish ordered
    obtain ⟨-, _, outerConstruct⟩ := construct_of_finishOf? outerFinish
    obtain ⟨-, _, innerConstruct⟩ := construct_of_finishOf? innerFinish
    rcases Nat.lt_or_ge outerCloser inner with apart | inside
    · exact .inr apart
    · have ends := Code.Placed.ended_of_construct outerConstruct (Nat.le_of_lt ordered)
        (Nat.lt_succ_of_le inside) innerFinish
      have distinct : innerCloser ≠ outerCloser := by
        rintro rfl
        have same := outerConstruct.closes.2
        rw [innerConstruct.closes.2] at same
        cases same
        exact Nat.lt_irrefl _ ordered
      omega
  shallow := by
    intro position
    rcases Nat.lt_or_ge position code.size with inside | behind
    · exact (oriented_link nested inside).shallow
    · rw [enclosing_link_of_le behind]
      exact Nat.zero_le _
  branches := by
    intro position instruction branch found member
    rcases Nat.lt_or_ge position code.size with inside | behind
    · exact (oriented_link nested inside).branches instruction branch found member
    · rcases role_link found with ⟨inside, -⟩ | ⟨-, rfl⟩
      · omega
      · cases member
  labels := by
    rw [toList_link, List.filterMap_append, Code.labels_instructions, Code.link_eq,
      List.range_eq_range']
    exact List.append_nil _

end Body

/-- **Links of decoded bodies.** Whatever bytes a body is decoded from, its marks belong together in
blocks that lie in each other, and its branches count the blocks around them. -/
theorem wellLinked_of_decodeBody {bytes : List UInt8} {body : Body}
    (decoded : Binary.decodeBody bytes = .ok body) : body.WellLinked := by
  obtain ⟨locals, code, finish, rfl, nested, sorted⟩ := Binary.structured_of_decodeBody decoded
  exact Body.wellLinked_link nested sorted

/-- The branches out of the two arms of a conditional block are linked to the block and to its
second arm. -/
theorem wellLinked_two_arms :
    ∃ body, Binary.decodeBody
        [0x00, 0x41, 0x01, 0x04, 0x40, 0x0c, 0x00, 0x05, 0x0c, 0x00, 0x0b, 0x0b] = .ok body ∧
      body.WellLinked ∧ body.instructions[2]? = some (.branch ⟨0, 1⟩) ∧
      body.instructions[4]? = some (.branch ⟨0, 3⟩) := by
  have decoded : Binary.decodeBody
      [0x00, 0x41, 0x01, 0x04, 0x40, 0x0c, 0x00, 0x05, 0x0c, 0x00, 0x0b, 0x0b] =
        .ok
          { instructions :=
              #[.plain (.const (.i32 1)), .ifThen none 0 (some 5) (some 3), .branch ⟨0, 1⟩,
                .otherwise 1 1, .branch ⟨0, 3⟩, .finish (some 1), .finish none]
            offsets := #[1, 3, 5, 7, 8, 10, 11]
            labelCount := 2 } := rfl
  exact ⟨_, decoded, wellLinked_of_decodeBody decoded, rfl, rfl⟩

end WasmCompiler
