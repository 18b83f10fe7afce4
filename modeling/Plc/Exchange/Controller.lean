/-
Controllers and their analysis as documents.

* `Controller.ofDocument` — the controller that a document is; what is missing has its default;
* `Controller.Stats.document`, `Controller.Summary.document` — parts of an analysis.
-/
import Plc.Controller.Analysis
import Plc.Exchange.Document

namespace Plc

namespace Controller

open Document (ofEntries)

/-! ### Reading -/

/-- The usage of a name. -/
def TagUsage.ofCode? (code : String) : Option TagUsage :=
  TagUsage.all.find? (·.code == code)

/-- The tag that a document is. -/
def Tag.ofDocument (d : Document) : Tag where
  name := d.textOr "name"
  type := d.text? "data_type"
  usage := (d.text? "usage").bind TagUsage.ofCode?
  dimensions := d.text? "dimensions"
  constant := d.flagOf "constant"
  description := d.text? "description"

/-- The rung that a document is. -/
def RungText.ofDocument (d : Document) : RungText where
  number := (d.number? "number").getD 0
  text := d.text? "text"
  comment := d.text? "comment"

/-- The routine that a document is; of rungs and lines it keeps those of its language. -/
def Routine.ofDocument (d : Document) : Routine where
  name := d.textOr "name"
  code := match d.textOr "routine_type" "RLL" with
    | "ST" => .text (d.texts "st_lines")
    | "FBD" => .blockDiagram
    | "SFC" => .chart
    | _ => .ladder ((d.items "rungs").map RungText.ofDocument)

/-- The program that a document is. -/
def Program.ofDocument (d : Document) : Program where
  name := d.textOr "name"
  mainRoutine := d.text? "main_routine"
  description := d.text? "description"
  tags := (d.items "tags").map Tag.ofDocument
  routines := (d.items "routines").map Routine.ofDocument

/-- The parameter that a document is. -/
def Parameter.ofDocument (d : Document) : Parameter where
  name := d.textOr "name"
  type := d.text? "data_type"
  usage := (TagUsage.ofCode? (d.textOr "usage")).getD .input
  required := d.flagOf "required"
  description := d.text? "description"

/-- The added instruction that a document is. -/
def AddOn.ofDocument (d : Document) : AddOn where
  name := d.textOr "name"
  revision := d.text? "revision"
  description := d.text? "description"
  parameters := (d.items "parameters").map Parameter.ofDocument
  tags := (d.items "local_tags").map Tag.ofDocument
  routines := (d.items "routines").map Routine.ofDocument

/-- The member of a type that a document is. -/
def TypeMember.ofDocument (d : Document) : TypeMember where
  name := d.textOr "name"
  type := d.textOr "data_type"
  dimension := (d.number? "dimension").getD 0
  description := d.text? "description"

/-- The type that a document is. -/
def UserType.ofDocument (d : Document) : UserType where
  name := d.textOr "name"
  description := d.text? "description"
  members := (d.items "members").map TypeMember.ofDocument

/-- The controller that a document is. -/
def ofDocument (d : Document) : Controller where
  name := d.textOr "name"
  processor := d.text? "processor_type"
  tags := (d.items "tags").map Tag.ofDocument
  programs := (d.items "programs").map Program.ofDocument
  addOns := (d.items "add_on_instructions").map AddOn.ofDocument
  dataTypes := (d.items "data_types").map UserType.ofDocument

/-! ### Writing -/

/-- How much there was in a routine. -/
def Summary.document (s : Summary) : Document :=
  .record [("program", s.owner), ("name", s.name), ("routine_type", s.language),
    ("rung_count", s.rungs), ("statement_count", s.statements), ("parsed_ok", s.read),
    ("parse_errors", s.errors), ("tag_references", s.references)]

/-- How much there is of everything. -/
def Stats.document (s : Stats) : Document :=
  .record [("programs", s.programs), ("aois", s.addOns), ("routines", s.routines),
    ("routines_by_type", ofEntries (fun (n : Nat) => (n : Document)) s.routinesByLanguage),
    ("rungs", s.rungs), ("rll_rungs_programs", s.rungsInPrograms),
    ("rll_rungs_aois", s.rungsInAddOns), ("parsed_ok", s.rungsRead), ("parsed_err", s.rungsFailed),
    ("tag_references", s.references), ("unique_tags", s.tags), ("instructions", s.instructions),
    ("st_routines", s.texts), ("st_routines_programs", s.textsInPrograms),
    ("st_routines_aois", s.textsInAddOns), ("st_statements", s.statements),
    ("st_parsed_ok", s.textsRead), ("st_parsed_err", s.textsFailed),
    ("st_diagnostics", s.diagnostics), ("limit_failures", s.limitFailures)]

/-- A reference. -/
def Reference.document (r : Reference) : Document :=
  .list [r.name, r.operand, r.instruction, r.place.path,
    Document.ofOption (fun (n : Nat) => (n : Document)) r.index]

/-- A call of an added instruction, without its name. -/
def Call.document (c : Call) : Document :=
  .list [c.place.path, if c.fromText then "ST" else "RLL"]

/-- A rung. -/
def RungOutcome.document (r : RungOutcome) : Document :=
  .list [r.location.path, r.isRead, Document.ofText? r.comment,
    Document.ofText? (r.rung?.map Ladder.Rung.text)]

end Controller

end Plc
