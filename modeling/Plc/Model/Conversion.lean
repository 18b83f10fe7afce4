/-
Projects from compilation units and from controllers.

Declarations are copied and nothing is resolved: first values and bodies become text, types become
names.  Methods become functions named after their owner, blocks of data become global variables.
Interfaces have no counterpart.

The programs of a controller become programs with their tags as locals, added instructions become
function blocks, and the tags of the controller become global variables.  Ladder routines are joined to
one listing; text routines are kept only where there is no ladder.

* `Project.ofUnit` — the project of a compilation unit;
* `Project.ofController` — the project of a controller.
-/
import Plc.Controller.Basic
import Plc.Dialect
import Plc.Model.Project
import Plc.Printer
import Plc.Text.Blank

namespace Plc

/-- The number that an expression is: a whole number, negated or in parentheses perhaps. -/
def Expr.wholeNumber? : Expr → Option Int
  | .literal _ l =>
    match l.value with
    | .integer n => some n
    | _ => none
  | .unary _ .neg x => x.wholeNumber?.map (- ·)
  | .paren _ x => x.wholeNumber?
  | _ => none

namespace Model

/-- The bounds of a dimension that is given by numbers and not empty. -/
def Bounds.ofDimension? (d : Dimension) : Option Bounds :=
  match d.low.wholeNumber?, d.high.wholeNumber? with
  | some low, some high => (Bounds.ofInts low high).toOption
  | _, _ => none

/-- The name of a type, and the sizes of its dimensions as far as they are known. -/
def typeAndSizes : TypeSpec → String × List Int
  | .array _ dims element => (element.shortName, (dims.filterMap Bounds.ofDimension?).map Bounds.size)
  | t => (t.shortName, [])

/-- A declared variable. -/
def Variable.ofDecl (block : VarBlock) (d : VarDecl) : Variable where
  name := d.name
  type := (typeAndSizes d.type).1
  role := block.kind
  initial := d.initial.map Expr.text
  address := d.address
  dimensions := (typeAndSizes d.type).2
  constant := block.constant
  retain := block.retain = .retain

/-- The interface that a unit declares. -/
def Interface.ofCode (c : Code) (returnType : Option TypeSpec) : Interface :=
  (c.vars.map fun (block, d) => Variable.ofDecl block d).foldl Interface.add
    { returnType := returnType.map TypeSpec.shortName }

/-- The text of some statements, if there are any. -/
def Body.ofStatements (stmts : List Stmt) : Option Body :=
  if stmts.isEmpty then none else some (.structuredText (Stmt.textAll stmts 0))

/-- An organization unit of the given name with the declarations and statements of another. -/
def Pou.ofCode (name : String) (kind : PouKind) (c : Code) (returnType : Option TypeSpec) : Pou where
  name := name
  kind := kind
  interface := .ofCode c returnType
  body := Body.ofStatements c.body

/-- The methods of a unit, named after their owner. -/
def Pou.ofMethods (owner : String) (methods : List Method) : List Pou :=
  methods.map fun m => .ofCode (owner ++ "." ++ m.code.name) .function m.code m.returnType

/-- A member of a structure. -/
def StructMember.ofField (f : StructField) : StructMember where
  name := f.name
  type := (typeAndSizes f.type).1
  initial := f.initial.map Expr.text
  dimensions := (typeAndSizes f.type).2

/-- What a type is; a subrange without numbers as bounds is only another name. -/
def Definition.ofSpec (t : TypeSpec) : Definition :=
  match t with
  | .struct _ fields => .struct (fields.map StructMember.ofField)
  | .enum _ members base => .enum base (members.map fun m =>
    { name := m.name, value := m.value.bind Expr.wholeNumber? })
  | .array _ dims element => .array element.shortName (dims.filterMap Bounds.ofDimension?)
  | .subrange _ base low high =>
    match low.wholeNumber?, high.wholeNumber? with
    | some low, some high => .subrange base low high
    | _, _ => .alias t.shortName
  | _ => .alias t.shortName

/-- A type that a block of data stands for: a structure of its variables. -/
def DataType.ofDataBlock (c : Code) : DataType where
  name := c.name
  definition := .struct ((Interface.ofCode c none).vars.map fun v =>
    { name := v.name, type := v.type, initial := v.initial, dimensions := v.dimensions })

/-- The organization units that a declaration becomes. -/
def Pou.ofDecl : Decl → List Pou
  | .pou (.program c) | .pou (.organizationBlock c) => [.ofCode c.name .program c none]
  | .pou (.function c t) => [.ofCode c.name .function c t]
  | .pou (.functionBlock c _ methods) | .pou (.classDecl c _ methods) =>
    .ofCode c.name .functionBlock c none :: Pou.ofMethods c.name methods
  | _ => []

/-- The types that a declaration becomes. -/
def DataType.ofDecl : Decl → List DataType
  | .types _ ts _ => ts.map fun t => { name := t.name, definition := .ofSpec t.type }
  | .pou (.dataBlock c none) => [.ofDataBlock c]
  | _ => []

/-- The global variables that a declaration becomes. -/
def Variable.globalsOfDecl : Decl → List Variable
  | .globals _ block => block.declarations.map (Variable.ofDecl block)
  | .pou (.dataBlock c owner) => [{ name := c.name, type := (owner.filter (!·.isEmpty)).getD c.name, role := .global }]
  | _ => []

/-- A configuration of one resource with the given variables, if there are any. -/
def Configuration.ofGlobals (name resource : String) (globals : List Variable) :
    Option Configuration :=
  if globals.isEmpty then none
  else some { name := name, resources := [{ name := resource, globals := globals }] }

/-- The project of a compilation unit. -/
def Project.ofUnit (u : CompilationUnit) (name : String) (dialect : Dialect) : Project where
  name := name
  dataTypes := u.declarations.flatMap DataType.ofDecl
  pous := u.declarations.flatMap Pou.ofDecl
  configuration := Configuration.ofGlobals name "Resource" (u.declarations.flatMap Variable.globalsOfDecl)
  format := some dialect.name

end Model

end Plc

namespace Plc.Model

open Controller (Tag TagUsage Parameter Routine)

/-- The kind of block in which a tag of some usage would be declared, if that is known. -/
def roleOf? : TagUsage → Option VarClass
  | .input => some .input
  | .output => some .output
  | .inOut => some .inOut
  | .published | .inner => none

/-- The name of a type; what has none is a double integer. -/
def typeOr (type : Option String) : String :=
  (type.filter (!·.isEmpty)).getD "DINT"

/-- A tag as a variable. -/
def Variable.ofTag (role : VarClass) (t : Tag) : Except Fault Variable := do
  return {
    name := t.name
    type := typeOr t.type
    role := (t.usage.bind roleOf?).getD role
    description := t.description
    dimensions := ← t.sizes
    constant := t.constant }

/-- A parameter as a variable. -/
def Variable.ofParameter (p : Parameter) : Variable where
  name := p.name
  type := typeOr p.type
  role := (roleOf? p.usage).getD .plain
  description := p.description

/-- A routine in a listing, under a line with its name. -/
def headed (name text : String) : String :=
  "// Routine: " ++ name ++ "\n" ++ text

/-- A ladder routine in a listing, without blank rungs. -/
def listingOf? (r : Routine) : Option String :=
  match r.code with
  | .ladder rungs =>
    let texts := (rungs.map fun x => Text.trimString (x.text.getD "")).filter (!·.isEmpty)
    if texts.isEmpty then none else some (headed r.name ("\n".intercalate texts))
  | _ => none

/-- A text routine, if it has any lines. -/
def textOf? (r : Routine) : Option String :=
  match r.code with
  | .text [] => none
  | .text lines => some (headed r.name (Routine.source lines))
  | _ => none

/-- The code of some routines. -/
def Body.ofRoutines (routines : List Routine) : Option Body :=
  match routines.filterMap listingOf?, routines.filterMap textOf? with
  | [], [] => none
  | [], texts => some (.structuredText ("\n\n".intercalate texts))
  | listings, _ => some (.other "RLL" ("\n\n".intercalate listings))

/-- A member of a type. -/
def StructMember.ofTypeMember (m : Controller.TypeMember) : StructMember where
  name := m.name
  type := m.type
  description := m.description
  dimensions := if m.dimension = 0 then [] else [m.dimension]

/-- A type of structures. -/
def DataType.ofUserType (t : Controller.UserType) : DataType where
  name := t.name
  description := t.description
  definition := .struct (t.members.map StructMember.ofTypeMember)

/-- A program. -/
def Pou.ofProgram (p : Controller.Program) : Except Fault Pou := do
  return {
    name := p.name
    kind := .program
    description := p.description
    interface := { locals := ← p.tags.mapM (Variable.ofTag .plain) }
    body := Body.ofRoutines p.routines }

/-- An added instruction; its own tags come after its parameters. -/
def Pou.ofAddOn (a : Controller.AddOn) : Except Fault Pou := do
  let tags ← a.tags.mapM (Variable.ofTag .plain)
  let parameters := (a.parameters.map Variable.ofParameter).foldl Interface.add {}
  return {
    name := a.name
    kind := .functionBlock
    description := a.description
    interface := { parameters with locals := parameters.locals ++ tags }
    body := Body.ofRoutines a.routines }

/-- The project of a controller; a dimension that cannot be read is a fault. -/
def Project.ofController (c : Controller) : Except Fault Project := do
  let programs ← c.programs.mapM Pou.ofProgram
  let addOns ← c.addOns.mapM Pou.ofAddOn
  let globals ← c.tags.mapM (Variable.ofTag .global)
  return {
    name := c.name
    dataTypes := c.dataTypes.map DataType.ofUserType
    pous := programs ++ addOns
    configuration := Configuration.ofGlobals c.name c.name globals
    format := some "l5x" }

end Plc.Model
