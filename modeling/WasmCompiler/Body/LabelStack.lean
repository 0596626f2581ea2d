/-! # Label stacks

The positions of the instructions that opened the blocks around a place in a body, innermost first.
The number of blocks is part of the type, so a branch whose depth is below it always resolves. -/

namespace WasmCompiler

/-- The openers of `depth` enclosing blocks. -/
inductive LabelStack : (depth : Nat) → Type where
  /-- Outside every block. -/
  | empty : LabelStack 0
  /-- Inside one more block. -/
  | push {depth : Nat} (opener : Nat) (outer : LabelStack depth) : LabelStack (depth + 1)

namespace LabelStack

/-- The opener of the block that is `level` levels out from the innermost one. -/
def resolve : {depth : Nat} → LabelStack depth → (level : Fin depth) → Nat
  | _ + 1, .push opener _, ⟨0, _⟩ => opener
  | _ + 1, .push _ outer, ⟨level + 1, below⟩ =>
      outer.resolve ⟨level, Nat.lt_of_succ_lt_succ below⟩

/-- The opener `level` levels out, if that many blocks are open. -/
def resolve? {depth : Nat} (labels : LabelStack depth) (level : Nat) : Option Nat :=
  if below : level < depth then some (labels.resolve ⟨level, below⟩) else none

/-- The opener of the innermost block, if there is one. -/
def innermost? : {depth : Nat} → LabelStack depth → Option Nat
  | _, .empty => none
  | _, .push opener _ => some opener

/-- The openers, innermost first. -/
def toList : {depth : Nat} → LabelStack depth → List Nat
  | _, .empty => []
  | _, .push opener outer => opener :: outer.toList

/-- There are as many labels in the list as blocks are open. -/
@[simp] theorem length_toList {depth : Nat} (labels : LabelStack depth) :
    labels.toList.length = depth := by
  induction labels with
  | empty => rfl
  | push opener outer outerInduction => simp only [toList, List.length_cons, outerInduction]

/-- Resolving a level looks it up among the openers. -/
theorem resolve?_eq_getElem? {depth : Nat} (labels : LabelStack depth) (level : Nat) :
    labels.resolve? level = labels.toList[level]? := by
  induction labels generalizing level with
  | empty => simp [resolve?, toList]
  | push opener outer outerInduction =>
      cases level with
      | zero => rfl
      | succ level =>
          simp only [resolve?, resolve, toList, List.getElem?_cons_succ, ← outerInduction,
            Nat.add_lt_add_iff_right]

end LabelStack

end WasmCompiler
