/-
The types of expressions.

Typing an expression finds its type and whether it is a place or a constant, reports what does not
fit, and marks the names that are read.  A rule that meets the unknown type gives the
unknown type and reports nothing, so that one mistake is reported once.

* `typeOf` — the rule for each kind of expression;
* `combine` — the type of an operation on two values;
* `callStandard?` — the result of a function of the standard library.
-/
import Plc.Scope
import Plc.Types.Registry

namespace Plc.Check

/-! ### What is known -/

/-- What typing finds out about an expression. -/
structure Info where
  type : Ty
  isConstant : Bool := false
  /-- The expression is a place that can be written. -/
  isPlace : Bool := false

namespace Info

/-- A value. -/
def value (t : Ty) : Info := { type := t }

/-- A constant. -/
def constant (t : Ty) : Info := { type := t, isConstant := true }

/-- A place. -/
def place (t : Ty) : Info := { type := t, isPlace := true }

/-- What a name means, read off its symbol. -/
def ofSymbol (s : Symbol) : Info :=
  if s.kind.isDeclaration then .value s.typeOrUnknown
  else if s.isMutable then .place s.typeOrUnknown
  else .constant s.typeOrUnknown

end Info

/-- A function declared by the user: its result and its inputs in order. -/
structure Signature where
  result : Ty
  params : List (String × Ty) := []

/-- What stays the same while a body is checked. -/
structure Context where
  /-- Functions under their names in capitals. -/
  functions : Keyed Signature := []
  /-- The type of the result that a body returns. -/
  result : Option Ty := none

/-- What changes while a body is checked. -/
structure State where
  scopes : Scopes := {}
  types : Registry := {}
  found : List Diagnostic := []

end Check

/-- A check of a part of a body. -/
abbrev Check (α : Type) := ReaderT Check.Context (StateM Check.State) α

namespace Check

/-- Adds a diagnostic. -/
def report (severity : Severity) (span : Span) (f : Finding) : Check Unit :=
  modify fun s => { s with found := s.found ++ [⟨f, span, severity, none⟩] }

/-- The symbol that a name means. -/
def lookup (name : String) : Check (Option Symbol) := do
  return (← get).scopes.lookup name

/-- Notes that a name is read. -/
def markUsed (name : String) : Check Unit :=
  modify fun s => { s with scopes := s.scopes.markUsed name }

/-- Notes that a name is written. -/
def markAssigned (name : String) : Check Unit :=
  modify fun s => { s with scopes := s.scopes.markAssigned name }

/-- Notes that the root of a variable, if it has a name, is written. -/
def markRootAssigned (v : Variable) : Check Unit := do
  if let some name := v.root? then markAssigned name

/-- The type that a name stands for. -/
def resolve (name : String) : Check Ty :=
  modifyGet fun s =>
    let (t, types) := (Registry.resolve name).run s.types
    (t, { s with types })

/-- A name without a meaning.  Names in quotes mean something outside of the text. -/
def undefined (span : Span) (name : String) (style : NameStyle) : Check Info := do
  unless style = .quoted do report .error span (.undefinedIdentifier name)
  return .value .unknown

/-! ### Operations -/

/-- The type of an operation on two values, where there is one.  Reals absorb whole numbers, texts
are joined by `+`, and durations are added, subtracted and scaled. -/
def combine? (op : BinaryOp) (left right : Ty) : Option Ty :=
  if op.isComparison then
    if Ty.comparable left right then some (.simple .bool) else none
  else if op.isLogical then
    if left.isBool && right.isBool then some (.simple .bool)
    else if left.isInteger && right.isInteger then some (Ty.widened left right)
    else none
  else if left.isNumeric && right.isNumeric then
    some (.simple (if left.isReal || right.isReal then .lreal else .dint))
  else if op == .add && left.isString && right.isString then some (.string false none)
  else if (op == .add || op == .sub) && left.isTime && right.isTime then some (.simple .time)
  else if (op == .mul || op == .div) && left.isTime && right.isNumeric then some (.simple .time)
  else none

/-- The type of an operation on two values; operands that do not fit are reported. -/
def combine (op : BinaryOp) (left right : Ty) (span : Span) : Check Ty := do
  if left.isUnknown || right.isUnknown then return .unknown
  if left.isAny || right.isAny then
    return .simple (if op.isComparison then .bool else .any)
  match combine? op left right with
  | some t => return t
  | none =>
    report .error span (.incompatibleTypes left.display right.display op.symbol)
    return .unknown

/-- The type of an operation on one value, where there is one. -/
def applied? (op : UnaryOp) (operand : Ty) : Option Ty :=
  match op with
  | .neg => if operand.isNumeric || operand.isTime then some operand else none
  | .not =>
    if operand.isBool then some (.simple .bool)
    else if operand.isInteger then some operand
    else none

/-- The type of a literal without a type name in front. -/
def literalType : Literal.Value → Ty
  | .bool _ => .simple .bool
  | .integer _ => .simple .dint
  | .real _ => .simple .lreal
  | .string _ => .string false none
  | .wideString _ => .string true none
  | .duration _ => .simple .time
  | .date _ => .simple .date
  | .timeOfDay _ => .simple .timeOfDay
  | .dateAndTime _ => .simple .dateAndTime
  | .null => .pointer none
  | .member _ => .unknown

/-- The type of a literal; a name in front decides for numbers and truth values. -/
def typeOfLiteral (l : Literal) : Check Ty := do
  match l.value, l.typeName with
  | .member _, some name =>
    let t ← resolve name
    return if t.isEnum then t else .unknown
  | .bool _, some name | .integer _, some name | .real _, some name => return .ofName name
  | v, _ => return literalType v

/-- The type of what a direct address holds. -/
def addressType : Address.Size → Ty
  | .bit => .simple .bool
  | .byte => .simple .byte
  | .word => .simple .word
  | .doubleWord => .simple .dword
  | .longWord => .simple .lword

/-! ### Functions -/

/-- The results of the functions of the standard library. -/
def standardFunctions : List (List String × Ty) := [
  (["ABS", "SQRT", "LN", "LOG", "EXP", "EXPT", "SIN", "COS", "TAN", "ASIN", "ACOS", "ATAN", "ATAN2"],
    .simple .lreal),
  (["TRUNC", "ROUND", "LEN", "FIND"], .simple .dint),
  (["SHL", "SHR", "ROL", "ROR"], .simple .dword),
  (["SEL", "MAX", "MIN", "LIMIT", "MUX", "MOVE"], .simple .any),
  (["LEFT", "RIGHT", "MID", "CONCAT", "INSERT", "DELETE", "REPLACE"], .string false none)]

/-- A character is a capital letter. -/
def isCapital (c : Char) : Bool :=
  'A' ≤ c && c ≤ 'Z'

/-- The type name at the end of the name of a conversion, such as `INT_TO_REAL` or `TO_INT`.  One
line break may follow. -/
def conversionTarget? (name : List Char) : Option (List Char) :=
  let reversed := match name.reverse with
    | '\n' :: cs => cs
    | cs => cs
  let target := (reversed.takeWhile isCapital).reverse
  match reversed.dropWhile isCapital with
  | '_' :: 'O' :: 'T' :: source =>
    let isSource : Bool := match source with
      | [] => true
      | '_' :: c :: cs => (c :: cs).all fun c => isCapital c || c == '_'
      | _ => false
    if !target.isEmpty && isSource then some target else none
  | _ => none

/-- The type of the result of a conversion, when a built-in type is converted to. -/
def callConversion? (name : String) : Option Ty :=
  match conversionTarget? name.toList with
  | some target =>
    match NamedType.ofName (String.ofList target) with
    | .other _ => none
    | t => some t.toTy
  | none => none

/-- The type of the result of a function of the standard library, its name in capitals. -/
def callStandard? (name : String) : Option Ty :=
  match standardFunctions.find? (·.1.contains name) with
  | some (_, t) => some t
  | none => callConversion? name

/-- The type of the argument that a parameter takes: by name, or by place. -/
def Signature.param? (s : Signature) (position : Nat) : Arg → Option (String × Ty)
  | .named _ name _ => ((Keyed.ofEntries s.params).lookup name).map (name, ·)
  | _ => s.params[position]?

/-- Reports arguments that do not fit a signature: a wrong number of them, or else each that has
a wrong type. -/
def checkSignature (s : Signature) (span : Span) (args : List (Arg × Ty)) : Check Unit := do
  if args.length ≠ s.params.length then
    report .error span (.wrongArgumentCount s.params.length args.length)
  else
    for ((arg, found), position) in args.zipIdx do
      if let some (name, expected) := s.param? position arg then
        unless expected.accepts found do
          report .error arg.span (.wrongArgumentType name expected.display found.display)

/-- The type of the result of a call whose arguments have been typed: of a declared function, of a
function that is being declared, or of the standard library.  Nothing is known of others. -/
def typeOfCall (span : Span) (name : String) (args : List (Arg × Ty)) : Check Ty := do
  let key := Text.upper name
  match (← read).functions.lookup key with
  | some s =>
    checkSignature s span args
    return s.result
  | none =>
    match ← lookup name with
    | some { kind := .function, type, .. } =>
      markUsed name
      return type.getD .unknown
    | _ => return (callStandard? key).getD .unknown

/-! ### Expressions -/

mutual

/-- Types a variable that is read. -/
def typeOfVariable : Variable → Check Info
  | .named span name style => do
    match ← lookup name with
    | some s =>
      markUsed name
      return .ofSymbol s
    | none =>
      match (← get).types.enumOf? name with
      | some type => return .constant (← resolve type)
      | none => undefined span name style
  | .address _ _ a => return .place (addressType a.size)
  | .member _ base member => do
    match (← typeOfVariable base).type with
    | .struct _ fields => return .place ((fields.lookup member).getD .unknown)
    | _ => return .place .unknown
  | .element span base indices => do
    let b ← typeOfVariable base
    checkIndices indices
    match b.type with
    | .array dims element =>
      if indices.length ≠ dims then
        report .error span (.dimensionMismatch dims indices.length)
      return .place element
    | _ => return .place .unknown
  | .deref _ base => do
    match (← typeOfVariable base).type with
    | .pointer (some target) => return .place target
    | _ => return .place .unknown

/-- Types an expression. -/
def typeOf : Expr → Check Info
  | .literal _ l => return .constant (← typeOfLiteral l)
  | .variable v => typeOfVariable v
  | .unary span op x => do
    let operand := (← typeOf x).type
    if operand.isUnknown then return .value .unknown
    match applied? op operand with
    | some t => return .value t
    | none =>
      let symbol := match op with
        | .neg => "-"
        | .not => "NOT"
      report .error span (.invalidOperator symbol operand.display)
      return .value .unknown
  | .binary span op l r => do
    let left ← typeOf l
    let right ← typeOf r
    return .value (← combine op left.type right.type span)
  | .paren _ x => typeOf x
  | .call span name args => do
    let typed ← typeOfArgs args
    return .value (← typeOfCall span name typed)
  | .repeated _ _ (some x) => do
    let _ ← typeOf x
    return .value .unknown
  | .repeated _ _ none => return .value .unknown
  | .arrayInit _ elements => do
    typeOfAll elements
    return .value .unknown
  | .structInit _ fields => do
    let _ ← typeOfArgs fields
    return .value .unknown

/-- Types the inputs among some arguments; a target of an output is written. -/
def typeOfArgs : List Arg → Check (List (Arg × Ty))
  | [] => return []
  | .positional span x :: args => do
    let t := (← typeOf x).type
    return (.positional span x, t) :: (← typeOfArgs args)
  | .named span name x :: args => do
    let t := (← typeOf x).type
    return (.named span name x, t) :: (← typeOfArgs args)
  | .output _ _ v _ :: args => do
    let _ ← typeOfVariable v
    markRootAssigned v
    typeOfArgs args
  | .inferred _ :: args => typeOfArgs args

/-- Types the indices of an array; each must be a whole number. -/
def checkIndices : List Expr → Check Unit
  | [] => return
  | x :: xs => do
    let t := (← typeOf x).type
    unless t.isInteger || t.isUnknown do report .error x.span .nonIntegerIndex
    checkIndices xs

/-- Types the elements of an initial value. -/
def typeOfAll : List Expr → Check Unit
  | [] => return
  | x :: xs => do
    let _ ← typeOf x
    typeOfAll xs

end

/-- Types a variable that is written; its name counts as written, and as read only where accesses
follow it. -/
def typeOfTarget : Variable → Check Info
  | .named span name style => do
    match ← lookup name with
    | some s =>
      markAssigned name
      return .ofSymbol s
    | none => undefined span name style
  | v => do
    let info ← typeOfVariable v
    markRootAssigned v
    return info

end Check

end Plc
