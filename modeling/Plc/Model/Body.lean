/-
The code of an organization unit.

Languages of text keep their text, graphical languages a list of instructions for each rung or
network, and sequential charts their steps and transitions.  What the project has no shape for
is kept as it came.

* `Body.language` — the name of the language;
* `Body.isEmpty` — there is no code.
-/
import Plc.Text.Blank

namespace Plc.Model

/-- An operand of a graphical instruction. -/
inductive Operand where
  /-- A tag, and the access to it as it is written. -/
  | tag (name text : String)
  | literal (text : String)
  | expression (text : String)
  | address (text : String)

/-- Where an instruction is drawn. -/
structure Position where
  rung : Int
  column : Int

/-- A graphical instruction. -/
structure Instruction where
  mnemonic : String
  operands : List Operand := []
  position : Option Position := none

/-- A rung of a ladder, as instructions or as the text that it was made from. -/
structure Rung where
  number : Int
  comment : Option String := none
  instructions : List Instruction := []
  text : Option String := none

/-- A network of blocks. -/
structure Network where
  number : Int
  label : Option String := none
  instructions : List Instruction := []

/-- A transition between steps of a chart. -/
structure Transition where
  name : Option String := none
  sources : List String := []
  targets : List String := []
  condition : String := ""

mutual

/-- The code of an organization unit. -/
inductive Body where
  | structuredText (text : String)
  | instructionList (text : String)
  | ladder (rungs : List Rung)
  | blockDiagram (networks : List Network)
  | chart (steps : List Step) (transitions : List Transition)
  /-- Text in a language of the given name. -/
  | other (language text : String)

/-- A step of a chart. -/
inductive Step where
  | mk (name : String) (isInitial : Bool) (actions : List Action)

/-- What is done in a step. -/
inductive Action where
  | mk (name qualifier : String) (body : Option Body)

end

namespace Body

/-- The name of the language. -/
def language : Body → String
  | .structuredText _ => "ST"
  | .instructionList _ => "IL"
  | .ladder _ => "LD"
  | .blockDiagram _ => "FBD"
  | .chart _ _ => "SFC"
  | .other language _ => language

/-- There is no code. -/
def isEmpty : Body → Bool
  | .structuredText text | .instructionList text | .other _ text => Text.isAllBlank text.toList
  | .ladder rungs => rungs.isEmpty
  | .blockDiagram networks => networks.isEmpty
  | .chart steps _ => steps.isEmpty

end Body

end Plc.Model
