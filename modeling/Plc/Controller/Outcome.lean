/-
What comes of reading the routines of a controller.

Ladder routines are read rung by rung and text routines as a whole, with recovery from errors;
other routines are not read.  A rung or routine that passes a limit is given up, and the next one
is read.  The outcome of a routine depends on nothing but the routine, its owner, and the settings.

* `Routine.outcome` — what comes of a routine;
* `Outcome.references` — the tags in it;
* `Outcome.calls` — the added instructions that it calls;
* `Outcome.summary` — how much there was in it.
-/
import Plc.Check.Pou
import Plc.Controller.Basic
import Plc.Ladder.Reading
import Plc.Printer
import Plc.Reading
import Plc.Tree.Walk

namespace Plc.Controller

/-- A place in a routine. -/
structure Place where
  owner : String
  routine : String
  rung : Option Int := none

/-- The place in one text. -/
def Place.path (p : Place) : String :=
  p.owner ++ "/" ++ p.routine ++ (p.rung.elim "" fun n => "/Rung#" ++ toString n)

/-- A tag that a routine mentions. -/
structure Reference where
  name : String
  /-- The access as it is written. -/
  operand : String
  /-- The instruction, or the language of the text. -/
  instruction : String
  place : Place
  /-- The place among the operands of the instruction. -/
  index : Option Nat := none

/-- A call of an added instruction. -/
structure Call where
  addOn : String
  place : Place
  fromText : Bool

/-! ### Rungs -/

/-- The tags that a rung mentions, if it could be read. -/
def usesOf : Except LimitError (Except Ladder.RungError Ladder.Rung) → Except Fault (List Ladder.TagUse)
  | .ok (.ok rung) => rung.tagUses
  | _ => .ok []

/-- What came of a rung: its elements, an error, or a passed limit. -/
structure RungOutcome where
  place : Ladder.RungPlace
  comment : Option String
  source : List Char
  result : Except LimitError (Except Ladder.RungError Ladder.Rung)
  /-- The tags that the operands of the rung mention. -/
  uses : List Ladder.TagUse
  uses_eq : usesOf result = .ok uses

namespace RungOutcome

/-- The rung, if it could be read. -/
def rung? (o : RungOutcome) : Option Ladder.Rung :=
  match o.result with
  | .ok (.ok r) => some r
  | _ => none

/-- The error in the text of the rung. -/
def error? (o : RungOutcome) : Option Ladder.RungError :=
  match o.result with
  | .ok (.error e) => some e
  | _ => none

/-- The limit that was passed. -/
def limit? (o : RungOutcome) : Option LimitError :=
  match o.result with
  | .error e => some e
  | _ => none

/-- The rung could be read. -/
def isRead (o : RungOutcome) : Bool :=
  o.rung?.isSome

/-- The rung was given up. -/
def isGivenUp (o : RungOutcome) : Bool :=
  o.limit?.isSome

/-- The instructions of the rung. -/
def instructions (o : RungOutcome) : List Ladder.Instruction :=
  o.rung?.elim [] Ladder.Rung.instructions

/-- The place of the rung. -/
def location (o : RungOutcome) : Place :=
  ⟨o.place.program, o.place.routine, some o.place.number⟩

/-- The tags in the rung. -/
def references (o : RungOutcome) : List Reference :=
  o.uses.map fun u => ⟨u.name, u.operand, u.instruction, o.location, some u.index⟩

/-- A rung is read, has an error, or is given up. -/
theorem isRead_xor (o : RungOutcome) :
    (o.isRead ^^ o.error?.isSome ^^ o.isGivenUp) = true := by
  obtain ⟨place, comment, source, result, uses, uses_eq⟩ := o
  match result with
  | .ok (.ok _) | .ok (.error _) | .error _ => rfl

end RungOutcome

/-- What comes of a rung; an operand that is taken apart without end is a fault. -/
def RungText.outcome (limits : Limits) (owner routine : String) (r : RungText) :
    Except Fault RungOutcome :=
  let source := (r.text.getD "").toList
  let result := Ladder.readLine source limits
  match h : usesOf result with
  | .ok uses =>
    .ok { place := ⟨owner, routine, r.number⟩, comment := r.comment, source, result, uses, uses_eq := h }
  | .error f => .error f

/-! ### Text -/

/-- What came of a text that was read. -/
structure TextOutcome where
  place : Place
  statements : List Stmt
  errors : List SyntaxError
  diagnostics : List Diagnostic

namespace TextOutcome

/-- The expressions that statements are made of. -/
def roots (t : TextOutcome) : List Expr :=
  (Stmt.flattenAll t.statements).flatMap Stmt.roots

/-- The tags in the text. -/
def references (t : TextOutcome) : List Reference :=
  t.roots.flatMap fun root => root.accesses.map fun a =>
    ⟨a.1, (Expr.variable a.2).text, "ST", t.place, none⟩

/-- The names that the text calls as functions. -/
def callees (t : TextOutcome) : List String :=
  t.roots.flatMap fun root => root.subexpressions.filterMap fun
    | .call _ name _ => some name
    | _ => none

end TextOutcome

/-- The symbols, each name once: a later symbol takes the place of an earlier one. -/
def externalsOf (symbols : List Symbol) : List Symbol :=
  (Keyed.ofEntries (symbols.map fun x => (x.name, x))).map (·.2)

/-- The diagnostic quotes a number that has more digits than can be written. -/
def isUnwritable (d : Diagnostic) : Bool :=
  match d.finding with
  | .magicNumber n => Text.maxDigits < n.toList.countP Text.isAsciiDigit
  | _ => false

/-- What comes of a text, unless it passes a limit; a number that cannot be read, or written, is a
fault. -/
def readText (limits : Limits) (config : SmellConfig) (o : Owner) (routine source : String) :
    Except Fault (Except LimitError TextOutcome) :=
  let reading : Reading := { source := source.toList, dialect := .rockwell, limits }
  match reading.statementsRecovering (o.symbols.map Symbol.name) with
  | .ok (statements, errors) =>
    let unit : Pou := .program { span := Span.zero, name := routine, body := statements }
    let diagnostics := unit.diagnostics config none none (externalsOf o.symbols)
    -- numbers are quoted while the smells of the body are looked for
    if (Smell.ofBody config none statements).any isUnwritable then .error .unreadableDigits
    else .ok (.ok { place := ⟨o.name, routine, none⟩, statements, errors, diagnostics })
  | .error (.limit e) => .ok (.error e)
  | .error e => .error e

/-! ### Routines -/

/-- What came of the code of a routine. -/
inductive Outcome.Detail where
  | ladder (rungs : List RungOutcome)
  | text (result : Except LimitError TextOutcome)
  | blockDiagram
  | chart

/-- What came of a routine. -/
structure Outcome where
  owner : String
  name : String
  detail : Outcome.Detail

/-- What comes of a routine. -/
def Routine.outcome (limits : Limits) (config : SmellConfig) (o : Owner) (r : Routine) :
    Except Fault Outcome := do
  let detail ← match r.code with
    | .ladder rungs => do
      let outcomes ← rungs.mapM (RungText.outcome limits o.name r.name)
      pure (.ladder outcomes)
    | .text lines => do
      let result ← readText limits config o r.name (Routine.source lines)
      pure (.text result)
    | .blockDiagram => pure .blockDiagram
    | .chart => pure .chart
  return { owner := o.name, name := r.name, detail }

/-- How much there was in a routine, and how much of it could be read. -/
structure Summary where
  owner : String
  name : String
  language : String
  rungs : Nat := 0
  statements : Nat := 0
  read : Nat := 0
  errors : Nat := 0
  references : Nat := 0

namespace Outcome

/-- The short name of the language. -/
def language (o : Outcome) : String :=
  match o.detail with
  | .ladder _ => "RLL"
  | .text _ => "ST"
  | .blockDiagram => "FBD"
  | .chart => "SFC"

/-- The rungs of the routine. -/
def rungs (o : Outcome) : List RungOutcome :=
  match o.detail with
  | .ladder rungs => rungs
  | _ => []

/-- The text of the routine, if it could be read. -/
def text? (o : Outcome) : Option TextOutcome :=
  match o.detail with
  | .text (.ok t) => some t
  | _ => none

/-- The routine is text. -/
def isText (o : Outcome) : Bool :=
  match o.detail with
  | .text _ => true
  | _ => false

/-- The place of the routine. -/
def place (o : Outcome) : Place :=
  ⟨o.owner, o.name, none⟩

/-- The limits that were passed, and where. -/
def limitFailures (o : Outcome) : List (Place × LimitError) :=
  match o.detail with
  | .text (.error e) => [(o.place, e)]
  | _ => o.rungs.filterMap fun r => r.limit?.map fun e => (r.location, e)

/-- The tags in the routine. -/
def references (o : Outcome) : List Reference :=
  o.rungs.flatMap RungOutcome.references ++ o.text?.elim [] TextOutcome.references

/-- The calls of added instructions, whose names are given under their capitals. -/
def calls (addOns : Keyed String) (o : Outcome) : List Call :=
  let meant := fun (name : String) => addOns.lookup (Text.upper name)
  (o.rungs.flatMap fun r => r.instructions.filterMap fun i =>
      (meant i.mnemonic).map fun a => ⟨a, r.location, false⟩) ++
    (o.text?.elim [] TextOutcome.callees).filterMap fun name =>
      (meant name).map fun a => ⟨a, o.place, true⟩

/-- How many pieces could be read. -/
def readCount (o : Outcome) : Nat :=
  match o.detail with
  | .ladder rungs => rungs.countP RungOutcome.isRead
  | .text (.ok t) => if t.errors.isEmpty then 1 else 0
  | _ => 0

/-- How many errors there are: rungs that could not be read, or errors in a text. -/
def errorCount (o : Outcome) : Nat :=
  match o.detail with
  | .ladder rungs => rungs.countP fun r => !r.isRead
  | .text (.ok t) => t.errors.length
  | .text (.error _) => 1
  | _ => 0

/-- How much there was in the routine. -/
def summary (o : Outcome) : Summary where
  owner := o.owner
  name := o.name
  language := o.language
  rungs := o.rungs.length
  statements := o.text?.elim 0 fun t => (Stmt.flattenAll t.statements).length
  read := o.readCount
  errors := o.errorCount
  references := o.references.length

end Outcome

end Plc.Controller
