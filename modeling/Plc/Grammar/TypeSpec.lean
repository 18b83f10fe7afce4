/-
Reading annotations, variable declarations and type specifications.

* `takePragmas` — the annotations written just before the next token;
* `varDecls` — `a, b : T := v;`, one declaration per name;
* `typeSpec` — a type, by the number of constructs that may still be opened.
-/
import Plc.Grammar.Stmt
import Plc.Tree.Decl
import Plc.Text.Case

namespace Plc.Grammar

/-! ### Annotations and attributes -/

/-- The annotation that a token holds. -/
def pragmaOf (t : Token) : Pragma :=
  match t.lexeme with
  | .pragma text => ⟨t.span, text, Pragma.entriesOf text.toList⟩
  | _ => ⟨t.span, t.text, []⟩

/-- Counts the annotations as nodes, one after the other. -/
def recordPragmas : List Pragma → Rule Unit
  | [] => return ()
  | p :: ps => do
    recordNode p.span
    recordPragmas ps

/-- The tokens of the annotations written just before the next token; they can be taken once. -/
def takeWaiting : Rule (List Token) := do
  let cursor ← get
  match cursor.pragmas.lookup cursor.index with
  | none => return []
  | some ts =>
    set { cursor with pragmas := cursor.pragmas.filter (·.1 != cursor.index) }
    return ts

/-- The annotations written just before the next token; they can be taken once. -/
def takePragmas : Rule (List Pragma) := do
  let pragmas := (← takeWaiting).map pragmaOf
  recordPragmas pragmas
  return pragmas

/-- The attributes of blocks, written `TITLE = text` or `VERSION : 0.1`. -/
def attributeNames : List String :=
  ["TITLE", "AUTHOR", "FAMILY", "NAME", "VERSION", "KNOW_HOW_PROTECT"]

/-- The attributes before a block's variables, in dialects that have them.  An attribute's value is
the rest of its line. -/
def blockAttributes : Rule (List (String × String)) := do
  let look (attributes : List (String × String)) :
      Rule (List (String × String) ⊕ String) := do
    let t ← peek
    let key := Text.upper t.text
    return if t.lexeme.isName && attributeNames.contains key then .inr key else .inl attributes
  let step (attributes : List (String × String)) (key : String) :
      Rule (List (String × String) ⊕ List (String × String)) := do
    if key == "KNOW_HOW_PROTECT" then
      let _ ← advance
      return .inr (Keyed.put attributes key "TRUE")
    else
      let separator ← lexemeAt 1
      if separator.is Mark.equal || separator.is Mark.colon then
        let _ ← advance
        let t ← advance
        let (value, lineEnd) ← restOfLine t.span.stop
        skipBefore lineEnd
        return .inr (Keyed.put attributes key (String.ofList (Pragma.unquote value)))
      else
        return .inl attributes
  if (← dialect).blocks then repeating look step (← passes) [] else return []

/-- Attributes and annotations between a header and the variables. -/
def headerExtras : Rule (List (String × String) × List Pragma) := do
  let before ← takePragmas
  let attributes ← blockAttributes
  let after ← takePragmas
  return (attributes, before ++ after)

/-! ### Variables -/

/-- One declaration for each name, all with the same type and initial value. -/
def declareEach (type : TypeSpec) (address : Option String) (initial : Option Expr)
    (pragmas : List Pragma) : List Token → Rule (List VarDecl)
  | [] => return []
  | name :: names => do
    let d ← node name.span fun s =>
      { span := s, name := name.nameText, type := type, address := address, initial := initial,
        pragmas := pragmas }
    let ds ← declareEach type address initial pragmas names
    return d :: ds

/-- `AT` and a direct address, if they come. -/
def placeOf : Rule (Option String) := do
  if ← accept Keyword.AT then
    match ← lexeme with
    | .address _ => (fun t => some t.text) <$> advance
    | _ => failExpecting "direct address"
  else return none

/-- The declaration of one variable or several, up to its semicolon. -/
def varDecls (typeSpec : Rule TypeSpec) (initializer : Rule Expr) : Rule (List VarDecl) := do
  let before ← takePragmas
  let names ← commaList (expectAnyName "variable name") Token.span
  let after ← takePragmas
  let address ← placeOf
  let _ ← expect Mark.colon
  let type ← typeSpec
  let initial ← if ← accept Mark.assign then some <$> initializer else pure none
  expectSemicolon
  declareEach type address initial (before ++ after) names

/-! ### Types -/

/-- The fields that some declarations make. -/
def fieldsOf : Nat → List VarDecl → Rule (List StructField)
  | _, [] => return []
  | size, d :: ds => do
    let field ← node d.span fun s => .mk s d.name d.type d.initial
    checkSize (size + 1) field.span
    let fields ← fieldsOf (size + 1) ds
    return field :: fields

/-- The error at the end of the text inside a construct that the given word closes. -/
def failUnclosed (opener : Token) (close : Keyword) : Rule α :=
  fail {
    kind := .missingTerminator
    span := opener.span
    expected := some (Terminal.keyword close).quoted }

/-- Neither the end of the text nor the given word comes next. -/
def before (close : Keyword) : Rule Bool := do
  let l ← lexeme
  return !(l.isFinish || l.is close)

/-- `STRUCT`, with its fields. -/
def structType (typeSpec : Rule TypeSpec) (initializer : Rule Expr) :
    Rule (Span × List StructField) := do
  let t ← advance
  let item (size : Nat) : Rule (List StructField) := do
    fieldsOf size (← varDecls typeSpec initializer)
  let fields ← many (before .END_STRUCT) item (← passes) 0
  if ← atEnd then failUnclosed t .END_STRUCT
  let _ ← advance
  node t.span fun s => (s, fields)

/-- The bounds of one dimension of an array. -/
def dimension (expression : Rule Expr) : Rule Dimension := do
  let start ← peek
  let low ← expression
  let _ ← expect Mark.range
  let high ← expression
  node start.span fun s => ⟨s, low, high⟩

/-- `ARRAY`, with its dimensions and the type of its elements. -/
def arrayType (expression : Rule Expr) (typeSpec : Rule TypeSpec) : Rule TypeSpec := do
  let t ← advance
  let opener ← expect Mark.leftBracket
  let dims ← commaList (dimension expression) Dimension.span
  expectClosing Mark.rightBracket opener .unclosedBracket
  let _ ← expect Keyword.OF
  let element ← typeSpec
  node t.span fun s => .array s dims element

/-- The length of a string type, in brackets or parentheses, if it comes. -/
def lengthOf (expression : Rule Expr) : Rule (Option Expr) := do
  if ← accept Mark.leftBracket then
    let e ← expression
    let _ ← expect Mark.rightBracket
    return some e
  else if ← accept Mark.leftParen then
    let e ← expression
    let _ ← expect Mark.rightParen
    return some e
  else return none

/-- A string type, with its length perhaps. -/
def stringType (expression : Rule Expr) (name : Keyword) : Rule TypeSpec := do
  let t ← advance
  let length ← lengthOf expression
  node t.span fun s => .elementary s name.spelling length

/-- The name of a built-in type in capitals, if the text is one in any case. -/
def elementaryName? (text : String) : Option String :=
  let capitals := Text.upper text
  if elementaryNames.contains capitals then some capitals else none

/-- A type that is given by its name: a built-in type, a subrange of one, or a declared type. -/
def namedType (expression : Rule Expr) : Rule TypeSpec := do
  let t ← expectAnyName "type name"
  let builtIn := if t.lexeme.isName then elementaryName? t.text else none
  match builtIn with
  | none => node t.span fun s => .named s t.nameText
  | some base =>
    if ← accept Mark.leftParen then
      let low ← expression
      let _ ← expect Mark.range
      let high ← expression
      let _ ← expect Mark.rightParen
      node t.span fun s => .subrange s base low high
    else
      node t.span fun s => .elementary s base none

/-- A type, from the rules for what stands inside it. -/
def typeSpecBody (expression initializer : Rule Expr) (typeSpec : Rule TypeSpec) :
    Rule TypeSpec := do
  let t ← peek
  match t.lexeme with
  | .keyword .ARRAY => arrayType expression typeSpec
  | .keyword .STRUCT =>
    let (s, fields) ← structType typeSpec initializer
    return .struct s fields
  | .keyword .REF_TO =>
    let _ ← advance
    let inner ← typeSpec
    node t.span fun s => .ref s inner
  | .keyword .STRING => stringType expression .STRING
  | .keyword .WSTRING => stringType expression .WSTRING
  | .name =>
    if Text.upper t.text == "POINTER" && (← lexemeAt 1).is Keyword.TO then
      let _ ← advance
      let _ ← advance
      let inner ← typeSpec
      node t.span fun s => .ref s inner
    else
      namedType expression
  | .quotedName _ => namedType expression
  | _ => failInvalid .invalidType

/-- A type, when `levels` more constructs may be opened. -/
def typeSpec : (levels : Nat) → Rule TypeSpec
  | 0 => tooDeep
  | levels + 1 =>
    nested (typeSpecBody (expression levels) (initializer levels) (typeSpec levels))

/-- A member of an enumeration. -/
def enumMember (expression : Rule Expr) : Rule EnumMember := do
  let name ← expectName "enumeration value"
  let value ← if ← accept Mark.assign then some <$> expression else pure none
  node name.span fun s => ⟨s, name.text, value⟩

/-- The name of a built-in type, if it comes. -/
def builtInOf : Rule (Option String) := do
  let t ← peek
  match t.lexeme, elementaryName? t.text with
  | .name, some base =>
    let _ ← advance
    return some base
  | _, _ => return none

/-- An enumeration, in parentheses, with the built-in type of its members perhaps. -/
def enumType (expression : Rule Expr) : Rule TypeSpec := do
  let opener ← advance
  let members ← commaList (enumMember expression) EnumMember.span
  expectClosing Mark.rightParen opener .unclosedParen
  let base ← builtInOf
  node opener.span fun s => .enum s members base

end Plc.Grammar
