/-
Controllers.

A controller has tags, programs with routines, instructions that are added on, which have routines
too, and types.  Programs and added instructions are the *owners* of routines.

* `Tag.sizes` — the dimensions of a tag, read from their text;
* `Controller.owners` — everything that has routines, with the names that can be seen from there.
-/
import Plc.SyntaxError
import Plc.Keyed
import Plc.Scope
import Plc.Text.Blank
import Plc.Text.Digit

namespace Plc

namespace Controller

/-! ### Tags -/

/-- What a tag is for, seen from outside. -/
inductive TagUsage where
  | input
  | output
  | inOut
  | published
  | inner
  deriving DecidableEq

namespace TagUsage

/-- The name of the usage. -/
def code : TagUsage → String
  | .input => "Input"
  | .output => "Output"
  | .inOut => "InOut"
  | .published => "Public"
  | .inner => "Local"

/-- Every usage. -/
def all : List TagUsage := [.input, .output, .inOut, .published, .inner]

end TagUsage

/-- A tag of a controller or program, or inside of an added instruction. -/
structure Tag where
  name : String
  type : Option String := none
  usage : Option TagUsage := none
  /-- The sizes in text, such as `10` or `4 8`. -/
  dimensions : Option String := none
  constant : Bool := false
  description : Option String := none

/-- The number that a word of digits is.  Not every digit can stand in a number, and not too many
can. -/
def readSize (word : List Char) : Except Fault Int :=
  match Text.decimal? word with
  | some n => if word.all Text.isDecimal then .ok n else .error .unreadableDigits
  | none => .error .unreadableDigits

/-- The sizes of the dimensions; words that are not made of digits are passed over. -/
def Tag.sizes (t : Tag) : Except Fault (List Int) :=
  let text := (t.dimensions.getD "").toList.map fun c => if c == ',' || c == 'x' then ' ' else c
  ((Text.words text).filter (·.all Text.isDigit)).mapM readSize

/-- The symbol of a name of the given type, which others write. -/
def symbolOf (name : String) (type : Option String) : Symbol :=
  { name, type := (type.filter (!·.isEmpty)).map Ty.ofName, assigned := true }

/-- The symbol of a tag. -/
def Tag.symbol (t : Tag) : Symbol :=
  symbolOf t.name t.type

/-! ### Routines -/

/-- A rung as text. -/
structure RungText where
  number : Int := 0
  text : Option String := none
  comment : Option String := none

/-- What a routine is written in, and its code as far as it is text. -/
inductive Routine.Code where
  | ladder (rungs : List RungText)
  | text (lines : List String)
  | blockDiagram
  | chart

/-- A routine. -/
structure Routine where
  name : String
  code : Routine.Code

/-- The source of a routine of the given lines. -/
def Routine.source (lines : List String) : String :=
  "\n".intercalate lines

/-- A program. -/
structure Program where
  name : String
  mainRoutine : Option String := none
  description : Option String := none
  tags : List Tag := []
  routines : List Routine := []

/-- A parameter of an added instruction. -/
structure Parameter where
  name : String
  type : Option String := none
  usage : TagUsage := .input
  required : Bool := false
  description : Option String := none

/-- An instruction that is added on. -/
structure AddOn where
  name : String
  revision : Option String := none
  description : Option String := none
  parameters : List Parameter := []
  tags : List Tag := []
  routines : List Routine := []

/-! ### Types -/

/-- A member of a type; a dimension of zero is none. -/
structure TypeMember where
  name : String
  type : String
  dimension : Int := 0
  description : Option String := none

/-- A type of structures. -/
structure UserType where
  name : String
  description : Option String := none
  members : List TypeMember := []

end Controller

open Controller

/-- A controller. -/
structure Controller where
  name : String
  processor : Option String := none
  tags : List Tag := []
  programs : List Program := []
  addOns : List AddOn := []
  dataTypes : List UserType := []

namespace Controller

/-- The first program of a name. -/
def program? (c : Controller) (name : String) : Option Program :=
  c.programs.find? (·.name == name)

/-- The first added instruction of a name. -/
def addOn? (c : Controller) (name : String) : Option AddOn :=
  c.addOns.find? (·.name == name)

/-! ### Owners of routines -/

/-- What the name of an owner begins with if it is an added instruction. -/
def addOnMark : String := "AOI:"

/-- The name is one of an owner that is an added instruction. -/
def isAddOn (owner : String) : Bool :=
  owner.startsWith addOnMark

/-- A program or added instruction, with the symbols that can be seen from its routines. -/
structure Owner where
  name : String
  symbols : List Symbol
  routines : List Routine

/-- A program as an owner. -/
def ownerOfProgram (c : Controller) (p : Program) : Owner where
  name := p.name
  symbols := c.tags.map Tag.symbol ++ p.tags.map Tag.symbol
  routines := p.routines

/-- An added instruction as an owner. -/
def ownerOfAddOn (c : Controller) (a : AddOn) : Owner where
  name := addOnMark ++ a.name
  symbols := c.tags.map Tag.symbol ++ a.parameters.map (fun p => symbolOf p.name p.type) ++
    a.tags.map Tag.symbol
  routines := a.routines

/-- Everything that has routines: the programs, then the added instructions. -/
def owners (c : Controller) : List Owner :=
  c.programs.map c.ownerOfProgram ++ c.addOns.map c.ownerOfAddOn

/-- The names that can be seen from each owner, in capitals; of owners of one name the last
counts. -/
def visible (c : Controller) : Keyed (List String) :=
  Keyed.ofEntries (c.owners.map fun o => (o.name, o.symbols.map fun x => Text.upper x.name))

/-- The name of the added instruction that a name in capitals means; of instructions that differ
in capitals only the last counts. -/
def addOnNames (c : Controller) : Keyed String :=
  Keyed.ofEntries (c.addOns.map fun a => (Text.upper a.name, a.name))

end Controller

end Plc
