/-
Projects as documents.

* `Model.Project.document` — a project, every field written out;
* `Model.Project.ofDocument` — the project that a document is; what is missing has its default.
-/
import Plc.Exchange.Document
import Plc.Model.CrossReference

namespace Plc.Model

open Document (ofOption ofList ofText? ofTexts ofEntries)

/-! ### Writing -/

/-- A number that may be missing. -/
def documentOfInt? : Option Int → Document :=
  ofOption .number

/-- A list of numbers. -/
def documentOfInts : List Int → Document :=
  ofList .number

/-- A variable. -/
def Variable.document (v : Variable) : Document :=
  .record [("name", v.name), ("data_type", v.type), ("var_class", v.role.role),
    ("initial_value", ofText? v.initial), ("description", ofText? v.description),
    ("address", ofText? v.address), ("dimensions", documentOfInts v.dimensions),
    ("constant", v.constant), ("retain", v.retain)]

/-- The bounds of a dimension. -/
def Bounds.document (b : Bounds) : Document :=
  .record [("lower", b.lower), ("upper", b.upper)]

/-- A member of a structure. -/
def StructMember.document (m : StructMember) : Document :=
  .record [("name", m.name), ("data_type", m.type), ("initial_value", ofText? m.initial),
    ("description", ofText? m.description), ("dimensions", documentOfInts m.dimensions)]

/-- A member of an enumeration. -/
def EnumMember.document (m : EnumMember) : Document :=
  .record [("name", m.name), ("value", documentOfInt? m.value),
    ("description", ofText? m.description)]

/-- What a type is. -/
def Definition.document : Definition → Document
  | .alias target => .record [("kind", "alias"), ("target", target)]
  | .struct members => .record [("kind", "struct"), ("members", ofList StructMember.document members)]
  | .enum base members => .record [("kind", "enum"), ("base_type", ofText? base),
    ("members", ofList EnumMember.document members)]
  | .array element dims => .record [("kind", "array"), ("element_type", element),
    ("dimensions", ofList Bounds.document dims)]
  | .subrange base lower upper => .record [("kind", "subrange"), ("base_type", base),
    ("lower", lower), ("upper", upper)]

/-- A named type. -/
def DataType.document (t : DataType) : Document :=
  .record [("name", t.name), ("description", ofText? t.description),
    ("definition", t.definition.document)]

/-- An operand. -/
def Operand.document : Operand → Document
  | .tag name text => .record [("kind", "tag"), ("name", name), ("full_text", text)]
  | .literal text => .record [("kind", "literal"), ("text", text)]
  | .expression text => .record [("kind", "expression"), ("text", text)]
  | .address text => .record [("kind", "address"), ("text", text)]

/-- A graphical instruction. -/
def Instruction.document (i : Instruction) : Document :=
  .record [("mnemonic", i.mnemonic), ("operands", ofList Operand.document i.operands),
    ("position", ofOption (fun p => .record [("rung", p.rung), ("column", p.column)]) i.position)]

/-- A rung. -/
def Rung.document (r : Rung) : Document :=
  .record [("number", r.number), ("comment", ofText? r.comment),
    ("instructions", ofList Instruction.document r.instructions), ("raw_text", ofText? r.text)]

/-- A network. -/
def Network.document (n : Network) : Document :=
  .record [("number", n.number), ("label", ofText? n.label),
    ("instructions", ofList Instruction.document n.instructions)]

/-- A transition. -/
def Transition.document (t : Transition) : Document :=
  .record [("name", ofText? t.name), ("from_steps", ofTexts t.sources),
    ("to_steps", ofTexts t.targets), ("condition", t.condition)]

mutual

/-- The code of an organization unit. -/
def Body.document : Body → Document
  | .structuredText text => .record [("kind", "st"), ("text", text)]
  | .instructionList text => .record [("kind", "il"), ("text", text)]
  | .ladder rungs => .record [("kind", "ld"), ("rungs", ofList Rung.document rungs)]
  | .blockDiagram networks =>
    .record [("kind", "fbd"), ("networks", ofList Network.document networks)]
  | .chart steps transitions => .record [("kind", "sfc"), ("steps", .list (Step.documents steps)),
    ("transitions", ofList Transition.document transitions)]
  | .other language text => .record [("kind", "raw"), ("language", language), ("content", text)]

/-- Each step of a list. -/
def Step.documents : List Step → List Document
  | [] => []
  | .mk name isInitial actions :: steps =>
    .record [("name", name), ("is_initial", isInitial), ("actions", .list (Action.documents actions))] ::
      Step.documents steps

/-- Each action of a list. -/
def Action.documents : List Action → List Document
  | [] => []
  | .mk name qualifier (some body) :: actions =>
    .record [("name", name), ("qualifier", qualifier), ("body", body.document)] ::
      Action.documents actions
  | .mk name qualifier none :: actions =>
    .record [("name", name), ("qualifier", qualifier), ("body", .null)] :: Action.documents actions

end

/-- An interface. -/
def Interface.document (i : Interface) : Document :=
  .record [("inputs", ofList Variable.document i.inputs),
    ("outputs", ofList Variable.document i.outputs), ("in_outs", ofList Variable.document i.inOuts),
    ("locals", ofList Variable.document i.locals), ("temps", ofList Variable.document i.temps),
    ("externals", ofList Variable.document i.externals), ("return_type", ofText? i.returnType)]

/-- An organization unit. -/
def Pou.document (p : Pou) : Document :=
  .record [("name", p.name), ("kind", p.kind.code), ("description", ofText? p.description),
    ("interface", p.interface.document), ("body", ofOption Body.document p.body)]

/-- A task. -/
def Task.document (t : Task) : Document :=
  .record [("name", t.name), ("task_type", t.trigger.code), ("priority", t.priority),
    ("period_ms", documentOfInt? t.trigger.period?), ("trigger_tag", ofText? t.trigger.tag?),
    ("watchdog_ms", documentOfInt? t.watchdog), ("programs", ofTexts t.programs)]

/-- A resource. -/
def Resource.document (r : Resource) : Document :=
  .record [("name", r.name), ("tasks", ofList Task.document r.tasks),
    ("global_vars", ofList Variable.document r.globals)]

/-- A configuration. -/
def Configuration.document (c : Configuration) : Document :=
  .record [("name", c.name), ("resources", ofList Resource.document c.resources)]

/-- A project. -/
def Project.document (p : Project) : Document :=
  .record [("name", p.name), ("description", ofText? p.description),
    ("data_types", ofList DataType.document p.dataTypes), ("pous", ofList Pou.document p.pous),
    ("configuration", ofOption Configuration.document p.configuration),
    ("source_format", ofText? p.format)]

/-- How much there is of everything. -/
def Stats.document (s : Stats) : Document :=
  .record [("programs", s.programs), ("function_blocks", s.functionBlocks),
    ("functions", s.functions), ("total_pous", s.pous), ("empty_pous", s.emptyPous),
    ("data_types", s.dataTypes), ("global_vars", s.globals), ("total_vars", s.vars),
    ("tasks", s.tasks), ("bodies_by_language", ofEntries (fun (n : Nat) => (n : Document)) s.bodies)]

/-- A reference. -/
def Reference.document (r : Reference) : Document :=
  ofTexts [r.tag, r.operand, r.instruction, r.place.path]

/-! ### Reading -/

/-- The numbers in a field. -/
def numbersOf (d : Document) (name : String) : List Int :=
  (d.items name).map Document.asNumber

/-- The variable that a document is. -/
def Variable.ofDocument (d : Document) : Variable where
  name := d.textOr "name"
  type := d.textOr "data_type"
  role := (VarClass.all.find? (·.role == d.textOr "var_class")).getD .plain
  initial := d.text? "initial_value"
  description := d.text? "description"
  address := d.text? "address"
  dimensions := numbersOf d "dimensions"
  constant := d.flagOf "constant"
  retain := d.flagOf "retain"

/-- The variables in a field. -/
def variablesOf (d : Document) (name : String) : List Variable :=
  (d.items name).map Variable.ofDocument

/-- The bounds that a document is. -/
def Bounds.ofDocument (d : Document) : Form Bounds :=
  Form.take (Bounds.ofInts ((d.number? "lower").getD 0) ((d.number? "upper").getD 0))

/-- The member of a structure that a document is. -/
def StructMember.ofDocument (d : Document) : StructMember where
  name := d.textOr "name"
  type := d.textOr "data_type"
  initial := d.text? "initial_value"
  description := d.text? "description"
  dimensions := numbersOf d "dimensions"

/-- The member of an enumeration that a document is. -/
def EnumMember.ofDocument (d : Document) : EnumMember where
  name := d.textOr "name"
  value := d.number? "value"
  description := d.text? "description"

/-- The definition that a document is. -/
def Definition.ofDocument (d : Document) : Form Definition :=
  match d.textOr "kind" with
  | "struct" => return .struct ((d.items "members").map StructMember.ofDocument)
  | "enum" => return .enum (d.text? "base_type") ((d.items "members").map EnumMember.ofDocument)
  | "array" => return .array (d.textOr "element_type") (← (d.items "dimensions").mapM Bounds.ofDocument)
  | "subrange" =>
    return .subrange (d.textOr "base_type") ((d.number? "lower").getD 0) ((d.number? "upper").getD 0)
  | _ => return .alias (d.textOr "target")

/-- The type that a document is. -/
def DataType.ofDocument (d : Document) : Form DataType := do
  let definition ← Definition.ofDocument ((d.field? "definition").getD .null)
  return { name := d.textOr "name", description := d.text? "description", definition }

/-- The operand that a document is. -/
def Operand.ofDocument (d : Document) : Operand :=
  match d.textOr "kind" with
  | "tag" => .tag (d.textOr "name") (d.textOr "full_text")
  | "literal" => .literal (d.textOr "text")
  | "expression" => .expression (d.textOr "text")
  | _ => .address (d.textOr "text")

/-- The place of an instruction that a document is. -/
def Position.ofDocument (d : Document) : Position where
  rung := (d.number? "rung").getD 0
  column := (d.number? "column").getD 0

/-- The instruction that a document is. -/
def Instruction.ofDocument (d : Document) : Instruction where
  mnemonic := d.textOr "mnemonic"
  operands := (d.items "operands").map Operand.ofDocument
  position := (d.field? "position").map Position.ofDocument

/-- The instructions in a field. -/
def instructionsOf (d : Document) (name : String) : List Instruction :=
  (d.items name).map Instruction.ofDocument

/-- The rung that a document is. -/
def Rung.ofDocument (d : Document) : Rung where
  number := (d.number? "number").getD 0
  comment := d.text? "comment"
  instructions := instructionsOf d "instructions"
  text := d.text? "raw_text"

/-- The network that a document is. -/
def Network.ofDocument (d : Document) : Network where
  number := (d.number? "number").getD 0
  label := d.text? "label"
  instructions := instructionsOf d "instructions"

/-- The transition that a document is. -/
def Transition.ofDocument (d : Document) : Transition where
  name := d.text? "name"
  sources := d.texts "from_steps"
  targets := d.texts "to_steps"
  condition := d.textOr "condition"

/-- The body that a document is. -/
def Body.ofDocument (d : Document) : Body :=
  match d.textOr "kind" with
  | "il" => .instructionList (d.textOr "text")
  | "ld" => .ladder ((d.items "rungs").map Rung.ofDocument)
  | "fbd" => .blockDiagram ((d.items "networks").map Network.ofDocument)
  | "raw" => .other (d.textOr "language") (d.textOr "content")
  | "sfc" =>
    let steps := (d.items "steps").attach.map fun ⟨s, _⟩ =>
      let actions := (s.items "actions").attach.map fun ⟨a, _⟩ =>
        let body := match _h : a.field? "body" with
          | some b => some (Body.ofDocument b)
          | none => none
        Action.mk (a.textOr "name") (a.textOr "qualifier" "N") body
      Step.mk (s.textOr "name") (s.flagOf "is_initial") actions
    .chart steps ((d.items "transitions").map Transition.ofDocument)
  | _ => .structuredText (d.textOr "text")
termination_by sizeOf d
decreasing_by
  have h₁ := Document.sizeOf_of_mem_items ‹s ∈ _›
  have h₂ := Document.sizeOf_of_mem_items ‹a ∈ _›
  have h₃ := Document.sizeOf_of_field? _h
  omega

/-- The interface that a document is. -/
def Interface.ofDocument (d : Document) : Interface where
  inputs := variablesOf d "inputs"
  outputs := variablesOf d "outputs"
  inOuts := variablesOf d "in_outs"
  locals := variablesOf d "locals"
  temps := variablesOf d "temps"
  externals := variablesOf d "externals"
  returnType := d.text? "return_type"

/-- The organization unit that a document is. -/
def Pou.ofDocument (d : Document) : Pou where
  name := d.textOr "name"
  kind := (PouKind.all.find? (·.code == d.textOr "kind")).getD .program
  description := d.text? "description"
  interface := Interface.ofDocument ((d.field? "interface").getD .null)
  body := (d.field? "body").map Body.ofDocument

/-- The task that a document is. -/
def Task.ofDocument (d : Document) : Form Task := do
  let trigger ← Form.take
    (Trigger.ofParts (d.textOr "task_type") (d.number? "period_ms") (d.text? "trigger_tag"))
  return {
    name := d.textOr "name"
    trigger
    priority := (d.number? "priority").getD 10
    watchdog := d.number? "watchdog_ms"
    programs := d.texts "programs" }

/-- The resource that a document is. -/
def Resource.ofDocument (d : Document) : Form Resource := do
  let tasks ← (d.items "tasks").mapM Task.ofDocument
  return { name := d.textOr "name", tasks, globals := variablesOf d "global_vars" }

/-- The configuration that a document is. -/
def Configuration.ofDocument (d : Document) : Form Configuration := do
  return { name := d.textOr "name", resources := ← (d.items "resources").mapM Resource.ofDocument }

/-- The project that a document is. -/
def Project.ofDocument (d : Document) : Form Project := do
  let dataTypes ← (d.items "data_types").mapM DataType.ofDocument
  let configuration ← (d.field? "configuration").mapM Configuration.ofDocument
  return {
    name := d.textOr "name"
    description := d.text? "description"
    dataTypes
    pous := (d.items "pous").map Pou.ofDocument
    configuration
    format := d.text? "source_format" }

/-- What smells to look for: what is missing is looked for. -/
def SmellConfig.ofDocument (d : Document) : SmellConfig where
  unusedTags := d.flagOr "unused_tags"
  undefinedTags := d.flagOr "undefined_tags"
  emptyPous := d.flagOr "empty_pous"
  unusedPous := d.flagOr "unused_pous"
  patterns := d.texts "ignore_patterns"
  scopes := d.texts "ignore_scopes"

end Plc.Model
