/-
Listings of ladder text.

A listing holds the rungs of several routines.  A comment `// Routine: NAME` on a line of its own
begins a routine, every semicolon ends a rung, and what follows `//` on a line is no part of a
rung.

* `Listing.rungs` — the rungs, each with its routine and its number there;
* `Listing.instructionsIn` — the instructions in a text that is no rung, as far as they can be
  made out.
-/
import Plc.Ladder.Reading
import Plc.Text.Blank

namespace Plc.Ladder.Listing

open Text

/-! ### Rungs -/

/-- The name of the routine that a line begins. -/
def routine? (line : List Char) : Option String :=
  match trimStart line with
  | '/' :: '/' :: cs =>
    let cs := trimStart cs
    let key := "Routine:".toList
    if key.isPrefixOf cs then
      match (trimStart (cs.drop key.length)).takeWhile fun c => !isBlank c with
      | [] => none
      | name => some (String.ofList name)
    else none
  | _ => none

/-- A part of a listing. -/
inductive Part where
  | routine (name : String)
  | rung (text : List Char)

/-- The texts up to each semicolon, and what comes after the last one; `pending` comes before the
text. -/
def ended (pending : List Char) : List Char → List (List Char) × List Char
  | [] => ([], pending)
  | ';' :: cs =>
    let (texts, rest) := ended [] cs
    ((pending ++ [';']) :: texts, rest)
  | c :: cs => ended (pending ++ [c]) cs

/-- The text as a rung, unless it is blank. -/
def rungOf (text : List Char) : List Part :=
  if isAllBlank text then [] else [.rung text]

/-- The parts of a listing; `pending` comes before the first of the lines. -/
def parts (pending : List Char) : List (List Char) → List Part
  | [] => rungOf (trim pending)
  | line :: lines =>
    match routine? line with
    | some name => rungOf pending ++ .routine name :: parts [] lines
    | none =>
      let (texts, rest) := ended pending (beforeComment line)
      texts.map (fun t => .rung (trim t)) ++ parts (rest ++ ['\n']) lines

/-- The rung parts, each with the routine it is in, if any, and its number there from zero. -/
def numbered (routine : Option String) (number : Nat) :
    List Part → List (Option String × Nat × List Char)
  | [] => []
  | .routine name :: ps => numbered (some name) 0 ps
  | .rung text :: ps => (routine, number, text) :: numbered routine (number + 1) ps

/-- The rungs of a listing, each with the routine it is in, if any, and its number there. -/
def rungs (listing : List Char) : List (Option String × Nat × List Char) :=
  numbered none 0 (parts [] (lines listing))

/-- No rung of a listing is lost or invented by numbering. -/
theorem length_numbered (routine : Option String) (number : Nat) (ps : List Part) :
    (numbered routine number ps).length = (ps.filter fun | .rung _ => true | _ => false).length := by
  induction ps generalizing routine number with
  | nil => rfl
  | cons p ps ih => cases p <;> simp [numbered, ih]

/-! ### Instructions in text that is no rung -/

/-- How far a search for instructions has come. -/
inductive Search where
  /-- Outside of operands, after the given letters of a name, in reverse. -/
  | outside (name : List Char)
  /-- In the operands of an instruction, of which some text has been passed, in reverse. -/
  | inside (mnemonic : List Char) (depth : Nat) (passed : List Char)

/-- The instruction of a name, in reverse, and the text of its operands, in reverse. -/
def instructionOf (mnemonic passed : List Char) : Instruction where
  mnemonic := String.ofList mnemonic.reverse
  operands := (Operand.argumentsOf passed.reverse).map fun t =>
    if t == ['?'] then none else some (String.ofList t)

/-- The instructions that begin in the rest of a text or are open before it. -/
def Search.run : Search → List Char → List Instruction
  | .outside _, [] => []
  | .inside mnemonic _ passed, [] => [instructionOf mnemonic passed]
  | .outside name, c :: cs =>
    if c == '(' && !name.isEmpty then Search.run (.inside name 0 []) cs
    else if isNameStart c || isNameChar c && !name.isEmpty then Search.run (.outside (c :: name)) cs
    else Search.run (.outside []) cs
  | .inside mnemonic depth passed, c :: cs =>
    if Operand.opens c then Search.run (.inside mnemonic (depth + 1) (c :: passed)) cs
    else if Operand.closes c then
      match depth with
      | 0 => instructionOf mnemonic passed :: Search.run (.outside []) cs
      | depth + 1 => Search.run (.inside mnemonic depth (c :: passed)) cs
    else Search.run (.inside mnemonic depth (c :: passed)) cs

/-- Every name with operands in brackets after it. -/
def instructionsIn (text : List Char) : List Instruction :=
  Search.run (.outside []) text

/-- The instructions of a rung of a listing, in any text; the semicolon at its end may be
missing. -/
def instructions (text : List Char) : Except LimitError (List Instruction) := do
  let closed := if (trimEnd text).getLast? == some ';' then text else text ++ [';']
  match ← readLine closed with
  | .ok rung => return rung.instructions
  | .error _ => return instructionsIn text

end Plc.Ladder.Listing
