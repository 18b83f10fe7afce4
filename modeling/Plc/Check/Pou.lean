/-
Checks of statements and of whole organization units.

What is stored must fit where it is stored, constants and inputs are not written, conditions are
truth values, and the control of a loop is a whole number.

The names around a unit are defined first: those given from outside, the globals of its
compilation unit, and the unit itself when it is a function.  Then come its own variables, its
body, and its methods, each in a scope of its own.

* `checkStmt`, `checkAll` — the checks of a statement and of a list;
* `Pou.diagnostics` — everything that is found in a unit, the gravest first.
-/
import Plc.Check.Expr
import Plc.Check.Smell

namespace Plc.Check

/-- The operation that an assignment makes before it stores. -/
def operationOf? : AssignOp → Option BinaryOp
  | .assign => none
  | .add => some .add
  | .sub => some .sub
  | .mul => some .mul
  | .div => some .div

/-- Reports a variable that must not be written. -/
def checkWritable (v : Variable) : Check Unit := do
  if let some name := v.root? then
    if let some s := ← lookup name then
      if s.kind = .constant || !s.isMutable then
        report .error v.span (.assignmentToConstant s.name)
      else if s.kind = .parameter then
        report .error v.span (.assignmentToInput s.name)

/-- Checks an assignment. -/
def checkAssignment (span : Span) (target : Variable) (op : AssignOp) (value : Expr) :
    Check Unit := do
  let place ← typeOfTarget target
  let v ← typeOf value
  let stored ← match operationOf? op with
    | none => pure v.type
    | some op => combine op place.type v.type span
  unless place.type.accepts stored do
    report .error value.span (.typeMismatch place.type.display stored.display)
  checkWritable target

/-- The expression is a plain name. -/
def plainName? : Expr → Option String
  | .variable (.named _ name _) => some name
  | _ => none

/-- The name means something that holds a truth value. -/
def isTruthValue (name : String) : Check Bool := do
  return (← lookup name).any fun s => s.type.any Ty.isBool

/-- Hints at a comparison of two names for truth values, which may stand for an assignment. -/
def checkComparison (condition : Expr) : Check Unit := do
  if let .binary span .eq l r := condition then
    if let (some a, some b) := (plainName? l, plainName? r) then
      if (← isTruthValue a) then
        if (← isTruthValue b) then report .hint span .possibleAssignment

/-- Checks a condition. -/
def checkCondition (condition : Expr) : Check Unit := do
  let t := (← typeOf condition).type
  unless t.isBool || t.isUnknown do
    report .warning condition.span (.typeMismatch "BOOL" t.display)
  checkComparison condition

/-- Reports a type that should hold whole numbers and does not. -/
def expectInteger (span : Span) (t : Ty) : Check Unit :=
  unless t.isUnknown || t.isInteger do report .error span (.typeMismatch "integer" t.display)

/-- Checks the control of a loop, which is read and written by the loop itself. -/
def checkControl (span : Span) (control : String) : Check Unit := do
  match ← lookup control with
  | none => report .error span (.undefinedIdentifier control)
  | some s =>
    markUsed control
    markAssigned control
    expectInteger span s.typeOrUnknown

/-- Checks a bound of a loop. -/
def checkBound (x : Expr) : Check Unit := do
  expectInteger x.span (← typeOf x).type

/-- Checks a label against the type of what it is compared with. -/
def checkLabel (selector : Ty) (x : Expr) : Check Unit := do
  let t := (← typeOf x).type
  unless selector.isUnknown || t.isUnknown || Ty.comparable selector t do
    report .error x.span (.typeMismatch selector.display t.display)

/-- Checks a value that is returned. -/
def checkResult (x : Expr) : Check Unit := do
  let t := (← typeOf x).type
  if let some expected := (← read).result then
    unless expected.accepts t do
      report .error x.span (.typeMismatch expected.display t.display)

mutual

/-- Checks a statement. -/
def checkStmt : Stmt → Check Unit
  | .assignment span target op value => checkAssignment span target op value
  | .ifThen _ (.mk _ condition body) elsifs otherwise => do
    checkCondition condition
    checkAll body
    checkElsifs elsifs
    match otherwise with
    | some ss => checkAll ss
    | none => return
  | .caseOf _ selector branches otherwise => do
    let t := (← typeOf selector).type
    checkBranches t branches
    match otherwise with
    | some ss => checkAll ss
    | none => return
  | .forLoop span control start stop step body => do
    checkControl span control
    checkBound start
    checkBound stop
    step.forM checkBound
    checkAll body
  | .whileLoop _ condition body => do
    checkCondition condition
    checkAll body
  | .repeatLoop _ body condition => do
    checkAll body
    checkCondition condition
  | .leave _ value => value.forM checkResult
  | .call _ span name args => discard (typeOf (.call span name args))
  | .invoke _ callee args => do
    let _ ← typeOfVariable callee
    discard (typeOfArgs args)
  | .region _ _ body => checkAll body
  | .exitLoop _ | .nextPass _ | .empty _ | .goto _ _ | .label _ _ => return

/-- Checks the statements of a list one after another. -/
def checkAll : List Stmt → Check Unit
  | [] => return
  | s :: ss => do
    checkStmt s
    checkAll ss

/-- Checks the branches of an `IF` statement after the first. -/
def checkElsifs : List IfBranch → Check Unit
  | [] => return
  | .mk _ condition body :: bs => do
    checkCondition condition
    checkAll body
    checkElsifs bs

/-- Checks the branches of a `CASE` statement. -/
def checkBranches (selector : Ty) : List CaseBranch → Check Unit
  | [] => return
  | .mk _ labels body :: bs => do
    (labels.flatMap CaseSelector.roots).forM (checkLabel selector)
    checkAll body
    checkBranches selector bs

end

end Plc.Check

namespace Plc

namespace Check

/-- The type of a specification. -/
def ofSpec (spec : TypeSpec) : Check Ty :=
  modifyGet fun s =>
    let (t, types) := (Registry.ofSpec spec).run s.types
    (t, { s with types })

/-- Adds a symbol to the current scope and gives what is wrong with it. -/
def define (x : Symbol) : Check (Option Diagnostic) :=
  modifyGet fun s =>
    let (d, scopes) := s.scopes.define x
    (d, { s with scopes })

/-- Runs a check inside a new scope. -/
def within (scope : String) (check : Check Unit) : Check Unit := do
  modify fun s => { s with scopes := s.scopes.enter scope }
  check
  modify fun s => { s with scopes := s.scopes.exit }

/-- Defines the variables of a unit and reports names that are taken or hide others. -/
def defineVariables (c : Code) : Check Unit :=
  c.vars.forM fun (block, d) => do
    let t ← ofSpec d.type
    if let some found ← define (.ofDecl block d (some t)) then
      modify fun s => { s with found := s.found ++ [found] }

/-- Defines a function or method under its own name, so that its body can set its result. -/
def defineResult (c : Code) (type : Option Ty) : Check Unit :=
  discard (define { name := c.name, kind := .function, type, span := c.span, assigned := true })

/-- Defines the variables of global blocks, without a report. -/
def defineGlobals (u : CompilationUnit) : Check Unit :=
  u.declarations.forM fun
    | .globals _ block =>
      block.declarations.forM fun d => do
        let t ← ofSpec d.type
        discard (define (.ofDecl block d (some t)))
    | _ => return

/-- The inputs and the result of a function. -/
def signatureOf (c : Code) (result : Option TypeSpec) : Check Signature := do
  let inputs := c.vars.filter (·.1.kind = .input)
  let params ← inputs.mapM fun (_, d) => return (d.name, ← ofSpec d.type)
  return { params, result := (← result.mapM ofSpec).getD (.simple .void) }

/-- The signatures of the functions of a unit, under their names in capitals. -/
def signaturesOf (u : CompilationUnit) : Check (Keyed Signature) := do
  let entries ← u.pous.filterMapM fun
    | .function c result => return some (Text.upper c.name, ← signatureOf c result)
    | _ => return none
  return Keyed.ofEntries entries

/-- Checks a method in a scope of its own. -/
def checkMethod (owner : String) (functions : Keyed Signature) (m : Method) : Check Unit :=
  within (owner ++ "." ++ m.code.name) do
    let result ← m.returnType.mapM ofSpec
    if result.isSome then defineResult m.code result
    defineVariables m.code
    withReader (fun _ => { functions, result }) (checkAll m.code.body)

/-- Checks a unit and its methods; smells and unused variables come last. -/
def checkPou (p : Pou) (config : SmellConfig) (unit : Option CompilationUnit) : Check Unit := do
  unit.forM defineGlobals
  let result ← p.returnType?.mapM ofSpec
  if let .function c _ := p then defineResult c result
  within p.name do
    defineVariables p.code
    let functions ← match unit with
      | some u => signaturesOf u
      | none => pure []
    withReader (fun _ => { functions, result }) (checkAll p.code.body)
    p.methods.forM (checkMethod p.name functions)
    modify fun s => { s with found := s.found ++ Smell.ofPou config p ++ s.scopes.unused false }

end Check

/-- Everything that is found in a unit, the gravest first.  Names given from outside are defined
around it, and so are the globals and functions of the compilation unit, if there is one. -/
def Pou.diagnostics (p : Pou) (config : SmellConfig := {}) (unit : Option CompilationUnit := none)
    (types : Option Registry := none) (externals : List Symbol := []) : List Diagnostic :=
  let known := types.getD ((unit.map Registry.ofUnit).getD {})
  let scopes := externals.foldl (fun (t : Scopes) x => (t.define x).2) {}
  let (_, s) := ((Check.checkPou p config unit).run {}).run { scopes, types := known }
  Diagnostic.sort s.found

end Plc
