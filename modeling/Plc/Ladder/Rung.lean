/-
Rungs of ladder logic.

A rung is a series of elements; an element is an instruction with operands, or a group of
branches of which any may conduct.

* `Element.anatomy` — elements by what is right inside them;
* `Rung.instructions` — the instructions in the order of the text, by a walk with a stack;
* `Rung.text` — the rung as it is written, without blanks between elements;
* `Rung.tagUses` — the tags that the operands mention, if every operand can be classified.
-/
import Plc.Ladder.Operand
import Plc.Span
import Plc.Tree.Anatomy

namespace Plc.Ladder

/-- An operand is a text, or `?` for one that is to be found out. -/
abbrev Operand := Option String

/-- An operand as it is written. -/
def Operand.text (x : Operand) : String :=
  x.getD "?"

/-- An instruction. -/
structure Instruction where
  mnemonic : String
  operands : List Operand := []
  span : Span := Span.zero

/-- A tag that an operand of an instruction mentions. -/
structure TagUse where
  name : String
  operand : String
  instruction : String
  /-- The place of the operand among those of the instruction, from zero. -/
  index : Nat

namespace Instruction

/-- The instruction as it is written. -/
def text (i : Instruction) : String :=
  i.mnemonic ++ "(" ++ ",".intercalate (i.operands.map Operand.text) ++ ")"

/-- The tags that an operand at a place mentions. -/
def usesAt (mnemonic : String) : Operand × Nat → Except Fault (List TagUse)
  | (some operand, index) => do
    let v ← Operand.value operand
    return v.tags.map fun name => ⟨name, operand, mnemonic, index⟩
  | (none, _) => .ok []

/-- The tags that the operands mention, from left to right. -/
def tagUses (i : Instruction) : Except Fault (List TagUse) := do
  let found ← i.operands.zipIdx.mapM (usesAt i.mnemonic)
  return found.flatten

end Instruction

/-- An element of a rung. -/
inductive Element where
  | instruction (i : Instruction)
  | parallel (span : Span) (branches : List (List Element))

mutual

/-- An element as it is written. -/
def Element.text : Element → String
  | .instruction i => i.text
  | .parallel _ branches => "[" ++ ",".intercalate (Element.branchTexts branches) ++ "]"

/-- A series of elements as it is written. -/
def Element.seriesText : List Element → String
  | [] => ""
  | e :: es => e.text ++ Element.seriesText es

/-- Each branch of a group as it is written. -/
def Element.branchTexts : List (List Element) → List String
  | [] => []
  | b :: bs => Element.seriesText b :: Element.branchTexts bs

end

/-! ### What is inside an element -/

/-- The elements right inside an element, those of all its branches. -/
def Element.parts : Element → List Element
  | .instruction _ => []
  | .parallel _ branches => branches.flatten

mutual

/-- An element and all elements inside it, in the order of the text. -/
def Element.all : Element → List Element
  | .instruction i => [.instruction i]
  | .parallel s branches => .parallel s branches :: Element.allInBranches branches

/-- The elements of a series and all elements inside them. -/
def Element.allInSeries : List Element → List Element
  | [] => []
  | e :: es => e.all ++ Element.allInSeries es

/-- The elements of the branches of a group and all elements inside them. -/
def Element.allInBranches : List (List Element) → List Element
  | [] => []
  | b :: bs => Element.allInSeries b ++ Element.allInBranches bs

end

theorem Element.allInSeries_eq (es : List Element) : Element.allInSeries es = es.flatMap all := by
  induction es with
  | nil => rfl
  | cons e es ih => rw [allInSeries, ih, List.flatMap_cons]

theorem Element.allInBranches_eq (bs : List (List Element)) :
    Element.allInBranches bs = Element.allInSeries bs.flatten := by
  induction bs with
  | nil => rfl
  | cons b bs ih =>
    rw [allInBranches, ih, List.flatten_cons, allInSeries_eq, allInSeries_eq, allInSeries_eq,
      List.flatMap_append]

theorem Element.all_eq (e : Element) : e.all = e :: e.parts.flatMap all := by
  cases e with
  | instruction i => rfl
  | parallel s branches => rw [all, allInBranches_eq, allInSeries_eq, parts]

/-- Elements by what is right inside them. -/
def Element.anatomy : Anatomy Element :=
  .ofAll Element.parts Element.all Element.all_eq

/-- The instruction that an element is, if it is one. -/
def Element.own : Element → List Instruction
  | .instruction i => [i]
  | .parallel _ _ => []

mutual

/-- The instructions of an element, in the order of the text. -/
def Element.instructions : Element → List Instruction
  | .instruction i => [i]
  | .parallel _ branches => Element.branchInstructions branches

/-- The instructions of a series. -/
def Element.seriesInstructions : List Element → List Instruction
  | [] => []
  | e :: es => e.instructions ++ Element.seriesInstructions es

/-- The instructions of the branches of a group. -/
def Element.branchInstructions : List (List Element) → List Instruction
  | [] => []
  | b :: bs => Element.seriesInstructions b ++ Element.branchInstructions bs

end

theorem Element.seriesInstructions_eq (es : List Element) :
    Element.seriesInstructions es = es.flatMap instructions := by
  induction es with
  | nil => rfl
  | cons e es ih => rw [seriesInstructions, ih, List.flatMap_cons]

theorem Element.seriesInstructions_append (es fs : List Element) :
    Element.seriesInstructions (es ++ fs) =
      Element.seriesInstructions es ++ Element.seriesInstructions fs := by
  rw [seriesInstructions_eq, seriesInstructions_eq, seriesInstructions_eq, List.flatMap_append]

theorem Element.branchInstructions_eq (bs : List (List Element)) :
    Element.branchInstructions bs = Element.seriesInstructions bs.flatten := by
  induction bs with
  | nil => rfl
  | cons b bs ih => rw [branchInstructions, ih, List.flatten_cons, seriesInstructions_append]

theorem Element.instructions_eq (e : Element) :
    e.instructions = e.own ++ e.parts.flatMap instructions := by
  cases e with
  | instruction i => rfl
  | parallel s branches =>
    rw [instructions, branchInstructions_eq, seriesInstructions_eq]
    rfl

/-- A rung. -/
structure Rung where
  elements : List Element := []

namespace Rung

/-- The rung as it is written. -/
def text (r : Rung) : String :=
  Element.seriesText r.elements ++ ";"

/-- The instructions, in the order of the text: those that a walk comes by. -/
def instructions (r : Rung) : List Instruction :=
  (Element.anatomy.walk r.elements).flatMap Element.own

/-- The walk comes by the instructions of one element after another. -/
theorem instructions_eq (r : Rung) : r.instructions = Element.seriesInstructions r.elements := by
  rw [instructions, Element.seriesInstructions_eq]
  exact Element.anatomy.flatMap_walk Element.instructions_eq r.elements

/-- The tags that the operands mention, in the order of the text. -/
def tagUses (r : Rung) : Except Fault (List TagUse) := do
  let found ← r.instructions.mapM Instruction.tagUses
  return found.flatten

end Rung

end Plc.Ladder
