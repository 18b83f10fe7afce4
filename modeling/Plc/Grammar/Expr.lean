/-
Reading expressions.

Operators bind, from the loosest: `OR`, `XOR`, `AND`, comparisons, sums, products, and `**`, which
groups to the right; all others group to the left.  A sign binds tighter still.  `NOT`
takes a whole comparison, so `a AND NOT b = c` is `a AND (NOT (b = c))`.

* `climb` — operators from a given precedence upwards;
* `unary`, `powerOperand` — what opens one more construct, by the number of constructs
  that may still be opened;
* `expression`, `leftValue`, `initializer` — the rules that other rules use.

Rules that need an expression inside a construct take the rule for it as an argument, so
only `unary`, `powerOperand` and `initializer` recurse.
-/
import Plc.Grammar.Cursor
import Plc.Tree.Expr
import Plc.Literal

namespace Plc.Grammar

/-! ### Operators -/

/-- The next operator, if it binds at least as tightly as asked for; otherwise the expression so
far is whole. -/
def operatorFrom (least : Nat) (left : Expr) : Rule (Expr ⊕ BinaryOp) := do
  match BinaryOp.ofLexeme? (← lexeme) with
  | some op => return if least ≤ op.precedence then .inr op else .inl left
  | none => return .inl left

/-- An operation whose left operand is read already. -/
def operation (rightOperand : BinaryOp → Rule Expr) (left : Expr) (op : BinaryOp) :
    Rule (Expr ⊕ Expr) := do
  let _ ← advance
  let right ← rightOperand op
  return .inr (← node left.span fun s => .binary s op left right)

/-- Operands joined by operators of at least the given precedence.  The right operand of an
operator holds only tighter ones, so operands nest at most `tighter` deep. -/
def climb (unary powerOperand : Rule Expr) : (tighter least : Nat) → Rule Expr
  | 0, _ => unary
  | tighter + 1, least => do
    let rightOperand (op : BinaryOp) : Rule Expr :=
      if op = .power then powerOperand else climb unary powerOperand tighter (op.precedence + 1)
    let first ← unary
    repeating (operatorFrom least) (operation rightOperand) (← passes) first

/-- Operands joined by operators of at least the given precedence; the tightest is seven. -/
def binaryFrom (unary powerOperand : Rule Expr) (least : Nat) : Rule Expr :=
  climb unary powerOperand (8 - least) least

/-! ### Literals -/

/-- The literal that one token stands for, unless it is a time or a date. -/
def plainLiteral? (t : Token) : Option Literal :=
  match t.lexeme with
  | .integer n => some ⟨.integer n, t.text, none⟩
  | .real x => some ⟨.real x, t.text, none⟩
  | .string x => some ⟨.string x, t.text, none⟩
  | .wideString x => some ⟨.wideString x, t.text, none⟩
  | .keyword .TRUE => some ⟨.bool true, t.text, none⟩
  | .keyword .FALSE => some ⟨.bool false, t.text, none⟩
  | .keyword .NULL => some ⟨.null, t.text, none⟩
  | _ => none

/-- The number of characters of a string literal; other literals have none to count. -/
def stringLength? : Literal.Value → Option Nat
  | .string x | .wideString x => some x.length
  | _ => none

/-- Passes over a token and gives the literal it stands for. -/
def literal (t : Token) (l : Literal) : Rule Expr := do
  let _ ← advance
  match stringLength? l.value with
  | some n => checkLimit .stringLength n t.span
  | none => pure ()
  node t.span fun s => .literal s l

/-- The value of a time or date literal, or the error in it. -/
def timeValue? (t : Token) : Option (Except Fault Literal.Value) :=
  let invalid (kind : SyntaxError.Kind) : Fault :=
    .grammar { kind := kind, span := t.span, detail := some t.text }
  let shaped (ok : Bool) (v : Literal.Value) : Except Fault Literal.Value :=
    if ok then .ok v else .error (invalid .invalidTimeLiteral)
  match t.lexeme with
  | .duration p =>
    some (match Literal.Duration.nanoseconds p.toList with
      | .ok n => .ok (.duration n)
      | .error .malformed => .error (invalid .invalidTimeLiteral)
      | .error .unknownUnit => .error (invalid .invalidTimeUnit)
      | .error .infinite => .error .infiniteDuration)
  | .date p => some (shaped (Literal.Calendar.isDate p.toList) (.date p))
  | .timeOfDay p => some (shaped (Literal.Calendar.isTimeOfDay p.toList) (.timeOfDay p))
  | .dateAndTime p => some (shaped (Literal.Calendar.isDateAndTime p.toList) (.dateAndTime p))
  | _ => none

/-- Passes over the token of a time or date literal and gives the literal. -/
def timeLiteral (t : Token) (value : Except Fault Literal.Value) : Rule Expr := do
  let _ ← advance
  match value with
  | .ok v => node t.span fun s => .literal s ⟨v, t.text, none⟩
  | .error f => throw f

/-- A token that may follow the `#` of a literal with its type in front. -/
def isTypedValue : Lexeme → Bool
  | .integer _ | .real _ | .string _ | .wideString _ | .name | .keyword .TRUE | .keyword .FALSE
  | .mark .minus => true
  | _ => false

/-- The value with its sign turned, for numbers. -/
def negated : Literal.Value → Literal.Value
  | .integer n => .integer (-n)
  | .real x => .real (-x)
  | v => v

/-- The literal of a type, which stands in front, up to the last token read. -/
def typedNode (type : Token) (value : Literal.Value) : Rule Expr := do
  let written := (← spanFrom type.span).text (← sourceText)
  node type.span fun s => .literal s ⟨value, String.ofList written, some type.text⟩

/-- A literal with its type in front, such as `INT#5` or `Color#Red`. -/
def typedLiteral : Rule Expr := do
  let type ← advance
  let _ ← expect Mark.hash
  let minus ← accept Mark.minus
  let t ← peek
  match t.lexeme, plainLiteral? t with
  | .name, _ =>
    if minus then failExpecting "literal value"
    else
      let _ ← advance
      typedNode type (.member t.text)
  | .integer _, some l | .real _, some l => do
    let _ ← literal t l
    typedNode type (if minus then negated l.value else l.value)
  | .keyword .NULL, _ => failExpecting "literal value"
  | _, some l =>
    if minus then failExpecting "literal value"
    else
      let _ ← literal t l
      typedNode type l.value
  | _, none => failExpecting "literal value"

/-! ### Variables and calls -/

/-- The name or address that a variable begins with. -/
def variableRoot : Rule Variable := do
  let t ← peek
  let d ← dialect
  let invalid : Rule Variable := failInvalid .invalidExpression
  match t.lexeme with
  | .name =>
    let _ ← advance
    node t.span fun s => .named s t.text .plain
  | .quotedName name =>
    if d.quotedNames then
      let _ ← advance
      node t.span fun s => .named s name .quoted
    else invalid
  | .mark .hash =>
    if d.localMark then
      let _ ← advance
      let name ← expectAnyName "local variable name"
      node t.span fun s => .named s name.nameText .blockLocal
    else invalid
  | .address a =>
    let _ ← advance
    node t.span fun s => .address s t.text a
  | _ => invalid

/-- A token that names a member. -/
def isMemberName : Lexeme → Bool
  | .name | .quotedName _ | .integer _ => true
  | _ => false

/-- One access to a variable: a member, an element or the referent.  Gives the variable itself
when no access follows. -/
def variableAccess (expression : Rule Expr) (v : Variable) : Rule (Variable ⊕ Variable) := do
  if (← sees Mark.dot) && isMemberName (← lexemeAt 1) then
    let _ ← advance
    let member ← advance
    return .inr (← node v.span fun s => .member s v member.nameText)
  else if ← sees Mark.leftBracket then
    let opener ← advance
    let indices ← commaList expression Expr.span
    expectClosing Mark.rightBracket opener .unclosedBracket
    return .inr (← node v.span fun s => .element s v indices)
  else if (← sees Mark.caret) && (← dialect).objects then
    let _ ← advance
    return .inr (← node v.span fun s => .deref s v)
  else
    return .inl v

/-- A variable: a name or an address, and accesses to its parts. -/
def variableWith (expression : Rule Expr) : Rule Variable := do
  let root ← variableRoot
  repeating (fun _ => return .inr ()) (fun v () => variableAccess expression v) (← passes) root

/-- An argument of a call that is not empty. -/
def argument (expression : Rule Expr) : Rule Arg := do
  let start ← peek
  let next ← lexemeAt 1
  if start.lexeme.isName && next.is Mark.assign then
    let _ ← advance
    let _ ← advance
    let value ← expression
    node start.span fun s => .named s start.text value
  else if start.lexeme.isName && next.is Mark.arrow then
    let _ ← advance
    let _ ← advance
    let target ← variableWith expression
    node start.span fun s => .output s start.text target false
  else if start.lexeme.is Keyword.NOT && next.isName && (← lexemeAt 2).is Mark.arrow then
    let _ ← advance
    let name ← advance
    let _ ← advance
    let target ← variableWith expression
    node start.span fun s => .output s name.text target true
  else
    let value ← expression
    node start.span fun s => .positional s value

/-- An argument of a call, or the empty place before a comma or the closing parenthesis. -/
def argumentOrGap (expression : Rule Expr) : Rule Arg := do
  if (← sees Mark.comma) || (← sees Mark.rightParen) then
    if (← dialect).inferredArguments then
      let pos := (← peek).span.start
      node ⟨pos, pos, Nat.le_refl pos⟩ .inferred
    else
      failInvalid .invalidExpression
  else
    argument expression

/-- The arguments of a call, in parentheses. -/
def callArgs (expression : Rule Expr) : Rule (List Arg) := do
  let opener ← expect Mark.leftParen
  if ← accept Mark.rightParen then
    return []
  else
    let args ← listed (return true) (argumentOrGap expression) Arg.span (← passes) 0
    expectClosing Mark.rightParen opener .unclosedParen
    return args

/-- The error about a call of something that has no dotted name. -/
def notCallable (kind : SyntaxError.Kind) (callee : Variable) : Rule α := do
  let written := callee.span.text (← sourceText)
  fail { kind := kind, span := callee.span, detail := some (String.ofList written) }

/-- A variable, or the call that it begins. -/
def variableOrCall (expression : Rule Expr) : Rule Expr := do
  let v ← variableWith expression
  if ← sees Mark.leftParen then
    match v.path? with
    | none => notCallable .invalidExpression v
    | some name =>
      let args ← callArgs expression
      node v.span fun s => .call s name args
  else
    return .variable v

/-! ### Operands -/

/-- A lexeme that a variable may begin with. -/
def beginsVariable : Lexeme → Bool
  | .name | .quotedName _ | .mark .hash | .address _ => true
  | _ => false

/-- A lexeme that may stand before the `#` of a typed literal. -/
def beginsTyped : Lexeme → Bool
  | .name | .keyword .STRING | .keyword .WSTRING => true
  | _ => false

/-- An operand without a sign: a literal, a parenthesis, a variable or a call. -/
def primary (expression : Rule Expr) : Rule Expr := do
  let t ← peek
  match plainLiteral? t, timeValue? t with
  | some l, _ => literal t l
  | none, some value => timeLiteral t value
  | none, none =>
    if t.lexeme.is Mark.leftParen then
      let _ ← advance
      let inner ← expression
      expectClosing Mark.rightParen t .unclosedParen
      node t.span fun s => .paren s inner
    else if beginsTyped t.lexeme && (← lexemeAt 1).is Mark.hash && isTypedValue (← lexemeAt 2) then
      typedLiteral
    else if beginsVariable t.lexeme then
      variableOrCall expression
    else
      failInvalid .invalidExpression

/-- An operand with its signs.  A plus sign adds nothing but its place. -/
def unaryBody (unary powerOperand : Rule Expr) : Rule Expr := do
  let t ← peek
  match t.lexeme with
  | .keyword .NOT =>
    let _ ← advance
    let operand ← binaryFrom unary powerOperand BinaryOp.eq.precedence
    node t.span fun s => .unary s .not operand
  | .mark .minus =>
    let _ ← advance
    let operand ← unary
    node t.span fun s => .unary s .neg operand
  | .mark .plus =>
    let _ ← advance
    let operand ← unary
    return operand.withSpan (t.span.merge operand.span)
  | _ => primary (binaryFrom unary powerOperand 1)

mutual

/-- An operand with its signs, when `levels` more constructs may be opened. -/
def unary : (levels : Nat) → Rule Expr
  | 0 => tooDeep
  | levels + 1 => nested (unaryBody (unary levels) (powerOperand levels))

/-- What stands to the right of `**`, when `levels` more constructs may be opened. -/
def powerOperand : (levels : Nat) → Rule Expr
  | 0 => tooDeep
  | levels + 1 =>
    nested (binaryFrom (unary levels) (powerOperand levels) BinaryOp.power.precedence)

end

/-- An expression. -/
def expression (levels : Nat) : Rule Expr :=
  binaryFrom (unary levels) (powerOperand levels) 1

/-- A variable. -/
def leftValue (levels : Nat) : Rule Variable :=
  variableWith (expression levels)

/-! ### Initial values -/

/-- An element of an array's initial value. -/
def arrayElement (initializer : Rule Expr) : Rule Expr := do
  let t ← peek
  match t.lexeme with
  | .integer n =>
    if (← lexemeAt 1).is Mark.leftParen then
      let _ ← advance
      let _ ← advance
      let value ← if ← sees Mark.rightParen then pure none else some <$> initializer
      let _ ← expect Mark.rightParen
      node t.span fun s => .repeated s n value
    else initializer
  | _ => initializer

/-- The initial value of an array, in brackets. -/
def arrayInit (initializer : Rule Expr) : Rule Expr := do
  let opener ← advance
  let more : Rule Bool := do return !(← sees Mark.rightBracket)
  let elements ← listed more (arrayElement initializer) Expr.span (← passes) 0
  expectClosing Mark.rightBracket opener .unclosedBracket
  node opener.span fun s => .arrayInit s elements

/-- A field of a structure's initial value. -/
def fieldInit (initializer : Rule Expr) : Rule Arg := do
  let name ← expectName "field name"
  let _ ← expect Mark.assign
  let value ← initializer
  node name.span fun s => .named s name.text value

/-- The initial value of a structure, in parentheses. -/
def structInit (initializer : Rule Expr) : Rule Expr := do
  let opener ← advance
  let fields ← listed (return true) (fieldInit initializer) Arg.span (← passes) 0
  expectClosing Mark.rightParen opener .unclosedParen
  node opener.span fun s => .structInit s fields

/-- The initial value of a declaration, when `levels` more constructs may be opened. -/
def initializer : (levels : Nat) → Rule Expr
  | 0 => tooDeep
  | levels + 1 => nested do
    if ← sees Mark.leftBracket then
      arrayInit (initializer levels)
    else if (← sees Mark.leftParen) && (← lexemeAt 1).isName && (← lexemeAt 2).is Mark.assign then
      structInit (initializer levels)
    else
      expression levels

end Plc.Grammar
