/-
Reading declarations.

* `varBlock`, `method` — by the number of constructs that may still be opened;
* `declarationWith` — one declaration; namespaces hold further ones;
* `compilationUnit` — the declarations of a text.

When errors are recovered from, a declaration that fails is dropped and the reading goes on at the
next word that opens one.
-/
import Plc.Grammar.TypeSpec

namespace Plc.Grammar

/-! ### Blocks of variables and of types -/

/-- The word after a variable block's keyword that marks constants or says what is retained. -/
def blockModifier (m : Bool × Retain) : Rule (Option (Bool × Retain)) := do
  if ← accept Keyword.CONSTANT then return some (true, m.2)
  else if ← accept Keyword.RETAIN then return some (m.1, .retain)
  else if ← accept Keyword.NON_RETAIN then return some (m.1, .nonRetain)
  else return none

/-- Checks the size of a list of variables after each of some more. -/
def checkDeclSizes : Nat → List VarDecl → Rule Unit
  | _, [] => return ()
  | size, d :: ds => do
    checkSize (size + 1) d.span
    checkDeclSizes (size + 1) ds

/-- A block of variables, from the rules for what stands inside it. -/
def varBlockBody (typeSpec : Rule TypeSpec) (initializer : Rule Expr) : Rule VarBlock := do
  let t ← advance
  let kind? := match t.lexeme with
    | .keyword k => VarClass.ofKeyword? k
    | _ => none
  match kind? with
  | none => fail { kind := .invalidDeclaration, span := t.span, detail := some t.text }
  | some kind =>
    let (constant, kept) ← whileTokens blockModifier (false, .unstated)
    let item (size : Nat) : Rule (List VarDecl) := do
      let decls ← varDecls typeSpec initializer
      checkDeclSizes size decls
      return decls
    let decls ← many (before .END_VAR) item (← passes) 0
    if ← atEnd then failUnclosed t .END_VAR
    let _ ← advance
    let _ ← accept Mark.semicolon
    node t.span fun s => ⟨s, kind, constant, kept, decls⟩

/-- A block of variables, when `levels` more constructs may be opened. -/
def varBlock : (levels : Nat) → Rule VarBlock
  | 0 => tooDeep
  | levels + 1 => nested (varBlockBody (typeSpec levels) (initializer levels))

/-- A word that opens a block of variables comes next. -/
def seesVarBlock : Rule Bool := do
  return (← lexeme).isAmong varBlockWords

/-- All blocks of variables that follow. -/
def varBlocks (levels : Nat) : Rule (List VarBlock) := do
  let item (size : Nat) : Rule (List VarBlock) := do
    let block ← varBlock levels
    checkSize (size + 1) block.span
    return [block]
  many seesVarBlock item (← passes) 0

/-- The colon of a named type.  Where blocks have attributes, they may stand in its place. -/
def typeColon : Rule Unit := do
  if ← accept Mark.colon then return ()
  else if (← dialect).blocks then
    let _ ← blockAttributes
    let _ ← takePragmas
  else
    failExpecting (Terminal.mark .colon).quoted

/-- A named type. -/
def typeDecl (levels : Nat) : Rule TypeDecl := do
  let name ← expectAnyName "type name"
  typeColon
  let type ← if ← sees Mark.leftParen then enumType (expression levels) else typeSpec levels
  let initial ← if ← accept Mark.assign then some <$> initializer levels else pure none
  let _ ← accept Mark.semicolon
  node name.span fun s => ⟨s, name.nameText, type, initial⟩

/-- A block of named types. -/
def typesDecl (levels : Nat) : Rule Decl := do
  let t ← advance
  let first ← takePragmas
  let item (size : Nat) : Rule (List (List Pragma × TypeDecl)) := do
    let pragmas ← takePragmas
    let d ← typeDecl levels
    checkSize (size + 1) d.span
    return [(pragmas, d)]
  let items ← many (before .END_TYPE) item (← passes) 0
  if ← atEnd then failUnclosed t .END_TYPE
  let _ ← advance
  let _ ← accept Mark.semicolon
  node t.span fun s => .types s (items.map (·.2)) (first ++ items.flatMap (·.1))

/-! ### Program organization units -/

/-- The names that some blocks declare. -/
def namesOf (blocks : List VarBlock) : List String :=
  blocks.flatMap fun b => b.declarations.map VarDecl.name

/-- The body of a unit with the given variables. -/
def pouBody (levels : Nat) (blocks : List VarBlock) (close : Keyword) : Rule (List Stmt) :=
  declaring (namesOf blocks) do
    let _ ← accept Keyword.BEGIN
    body levels [close]

/-- The word that closes a unit, and a semicolon perhaps. -/
def finishPou (close : Keyword) (opener : Token) : Rule Unit := do
  if ← atEnd then failUnclosed opener close
  let _ ← expect close
  let _ ← accept Mark.semicolon

/-- A colon and the type of a result, if they come. -/
def returnType (levels : Nat) : Rule (Option TypeSpec) := do
  if ← accept Mark.colon then some <$> typeSpec levels else return none

/-- A program. -/
def programDecl (levels : Nat) : Rule Pou := do
  let t ← advance
  let name ← expectAnyName "program name"
  let (attributes, pragmas) ← headerExtras
  let blocks ← varBlocks levels
  let stmts ← pouBody levels blocks .END_PROGRAM
  finishPou .END_PROGRAM t
  node t.span fun s => .program ⟨s, name.nameText, blocks, stmts, attributes, pragmas⟩

/-- A function. -/
def functionDecl (levels : Nat) : Rule Pou := do
  let t ← advance
  let name ← expectAnyName "function name"
  let type ← returnType levels
  let (attributes, pragmas) ← headerExtras
  let blocks ← varBlocks levels
  let stmts ← pouBody levels blocks .END_FUNCTION
  finishPou .END_FUNCTION t
  node t.span fun s => .function ⟨s, name.nameText, blocks, stmts, attributes, pragmas⟩ type

/-- An organization block. -/
def organizationBlockDecl (levels : Nat) : Rule Pou := do
  let t ← advance
  let name ← expectAnyName "organization block name"
  let (attributes, pragmas) ← headerExtras
  let blocks ← varBlocks levels
  let stmts ← pouBody levels blocks .END_ORGANIZATION_BLOCK
  finishPou .END_ORGANIZATION_BLOCK t
  node t.span fun s => .organizationBlock ⟨s, name.nameText, blocks, stmts, attributes, pragmas⟩

/-- The variables that the fields of a structure are. -/
def variablesOf (fields : List StructField) : Rule (List VarDecl) :=
  fields.mapM fun f =>
    node f.span fun s => { span := s, name := f.name, type := f.type, initial := f.initial }

/-- What a data block is made of: the name of a block, or a structure as a block of variables. -/
def dataBlockBase (levels : Nat) : Rule (Option String × List VarBlock) := do
  let start ← peek
  match start.lexeme with
  | .name | .quotedName _ =>
    let _ ← advance
    return (some start.nameText, [])
  | .keyword .STRUCT =>
    let (_, fields) ← structType (typeSpec levels) (initializer levels)
    let _ ← accept Mark.semicolon
    let decls ← variablesOf fields
    let block ← node start.span fun s => { span := s, declarations := decls : VarBlock }
    return (none, [block])
  | _ => return (none, [])

/-- A data block: an instance of a block, or a structure, and further variables. -/
def dataBlockDecl (levels : Nat) : Rule Pou := do
  let t ← advance
  let name ← expectAnyName "data block name"
  let (attributes, pragmas) ← headerExtras
  let (instanceOf, own) ← dataBlockBase levels
  let blocks := own ++ (← varBlocks levels)
  let stmts ← pouBody levels blocks .END_DATA_BLOCK
  finishPou .END_DATA_BLOCK t
  node t.span fun s =>
    .dataBlock ⟨s, name.nameText, blocks, stmts, attributes, pragmas⟩ instanceOf

/-- What may stand between `METHOD` and the method's name. -/
structure MethodModifiers where
  access : Option Access := none
  final : Bool := false
  abstract : Bool := false
  override : Bool := false

/-- One modifier of a method. -/
def methodModifier (m : MethodModifiers) : Rule (Option MethodModifiers) := do
  let changed : Option MethodModifiers := match ← lexeme with
    | .keyword .PUBLIC => some { m with access := some .everyone }
    | .keyword .PRIVATE => some { m with access := some .owner }
    | .keyword .PROTECTED => some { m with access := some .descendants }
    | .keyword .INTERNAL => some { m with access := some .namespaceOnly }
    | .keyword .FINAL => some { m with final := true }
    | .keyword .ABSTRACT => some { m with abstract := true }
    | .keyword .OVERRIDE => some { m with override := true }
    | _ => none
  if changed.isSome then
    let _ ← advance
  return changed

/-- A method, from its first word on. -/
def methodBody (levels : Nat) : Rule Method := do
  let t ← advance
  let m ← whileTokens methodModifier {}
  let name ← expectAnyName "method name"
  let type ← returnType levels
  let blocks ← varBlocks levels
  let stmts ← pouBody levels blocks .END_METHOD
  finishPou .END_METHOD t
  node t.span fun s => {
    code := { span := s, name := name.nameText, varBlocks := blocks, body := stmts }
    access := m.access
    final := m.final
    abstract := m.abstract
    override := m.override
    returnType := type }

/-- A method, when `levels` more constructs may be opened. -/
def method : (levels : Nat) → Rule Method
  | 0 => tooDeep
  | levels + 1 => nested (methodBody levels)

/-- The variables and methods of a block or class read so far. -/
structure Members where
  blocks : List VarBlock := []
  methods : List Method := []

/-- The variables and methods that follow, after those already read.  A method sees the variables
before it. -/
def members (levels : Nat) (m : Members) : Rule Members := do
  let look (m : Members) : Rule (Members ⊕ Bool) := do
    if ← sees Keyword.METHOD then return .inr true
    else if ← seesVarBlock then return .inr false
    else return .inl m
  let step (m : Members) (isMethod : Bool) : Rule (Members ⊕ Members) := do
    if isMethod then
      declaring (namesOf m.blocks) do
        let x ← method levels
        checkSize (m.methods.length + 1) x.code.span
        return .inr { m with methods := m.methods ++ [x] }
    else
      let block ← varBlock levels
      checkSize (m.blocks.length + 1) block.span
      return .inr { m with blocks := m.blocks ++ [block] }
  repeating look step (← passes) m

/-- One modifier of a block or class; gives whether it is final and whether it is abstract. -/
def classModifier (m : Bool × Bool) : Rule (Option (Bool × Bool)) := do
  if ← accept Keyword.FINAL then return some (true, m.2)
  else if ← accept Keyword.ABSTRACT then return some (m.1, true)
  else if ← accept Keyword.PUBLIC then return some m
  else if ← accept Keyword.INTERNAL then return some m
  else return none

/-- One interface name or more. -/
def interfaceNames : Rule (List String) :=
  commaList (Token.nameText <$> expectAnyName "interface name") fun _ => Span.zero

/-- The name of a block or class, with what stands around it. -/
def classHeader (noun : String) : Rule (Token × Inheritance) := do
  let (final, abstract) ← whileTokens classModifier (false, false)
  let name ← expectAnyName noun
  let base ←
    if ← accept Keyword.EXTENDS then
      (fun t => some t.nameText) <$> expectAnyName "base name"
    else pure none
  let implements ← if ← accept Keyword.IMPLEMENTS then interfaceNames else pure []
  return (name, { base := base, implements := implements, final := final, abstract := abstract })

/-- A function block, from the rule for its body.  Variables and methods may stand before the body
and after it. -/
def functionBlockWith (body : Rule (List Stmt)) (levels : Nat) : Rule Pou := do
  let t ← advance
  let (name, heritage) ← classHeader "function block name"
  let (attributes, pragmas) ← headerExtras
  let first ← members levels {}
  let (stmts, all) ← declaring (namesOf first.blocks) do
    let _ ← accept Keyword.BEGIN
    let stmts ← body
    let all ← members levels first
    return (stmts, all)
  finishPou .END_FUNCTION_BLOCK t
  node t.span fun s =>
    .functionBlock ⟨s, name.nameText, all.blocks, stmts, attributes, pragmas⟩ heritage all.methods

/-- A function block. -/
def functionBlockDecl (levels : Nat) : Rule Pou :=
  functionBlockWith (body levels [.END_FUNCTION_BLOCK, .METHOD]) levels

/-- A class. -/
def classDecl (levels : Nat) : Rule Pou := do
  let t ← advance
  let (name, heritage) ← classHeader "class name"
  let m ← members levels {}
  finishPou .END_CLASS t
  node t.span fun s =>
    .classDecl { span := s, name := name.nameText, varBlocks := m.blocks } heritage m.methods

/-- An interface: the methods that others have to supply. -/
def interfaceDecl (levels : Nat) : Rule Pou := do
  let t ← advance
  let name ← expectAnyName "interface name"
  let parents ← if ← accept Keyword.EXTENDS then interfaceNames else pure []
  let item (size : Nat) : Rule (List Method) := do
    let m ← method levels
    checkSize (size + 1) m.code.span
    return [m]
  let methods ← many (sees Keyword.METHOD) item (← passes) 0
  finishPou .END_INTERFACE t
  node t.span fun s => .interface { span := s, name := name.nameText } parents methods

/-! ### Declarations -/

/-- Names with points between them. -/
def dottedName : Rule String := do
  let first ← expectName "namespace name"
  let step (path : String) : Rule (Option String) := do
    if ← accept Mark.dot then
      let t ← expectName "namespace name"
      return some (path ++ "." ++ t.text)
    else
      return none
  whileTokens step first.text

/-- Declarations up to the given word, or up to the end of the text. -/
def declarationsUntil (close : Option Keyword) (declaration : Rule (Option Decl)) :
    Rule (List Decl) := do
  let closes (l : Lexeme) : Bool := match close with
    | some k => l.is k
    | none => l.isFinish
  let more : Rule Bool := do
    let l ← lexeme
    return !(l.isFinish || closes l)
  let item (size : Nat) : Rule (List Decl) := do
    match ← recovering (fun l => l.isAmong declarationWords || closes l) false declaration with
    | some (some d) =>
      checkSize (size + 1) d.span
      return [d]
    | _ => return []
  many more item (← passes) 0

/-- A namespace. -/
def spaceDecl (declaration : Rule (Option Decl)) : Rule Decl := do
  let t ← advance
  let internal ← accept Keyword.INTERNAL
  let name ← dottedName
  let using_ (size : Nat) : Rule (List String) := do
    let path ← dottedName
    expectSemicolon
    checkSize (size + 1) Span.zero
    return [path]
  let usings ← many (accept Keyword.USING) using_ (← passes) 0
  let decls ← declarationsUntil (some .END_NAMESPACE) declaration
  finishPou .END_NAMESPACE t
  node t.span fun s => .space s name internal usings decls

/-- An organization unit as a declaration. -/
def pouDecl (rule : Rule Pou) : Rule (Option Decl) :=
  (some ∘ Decl.pou) <$> rule

/-- A declaration, from the rules for a function block and for what stands inside a namespace; a
lone semicolon is none. -/
def declarationBody (functionBlock : Rule Pou) (declaration : Rule (Option Decl)) (levels : Nat) :
    Rule (Option Decl) := do
  let t ← peek
  match t.lexeme with
  | .keyword .PROGRAM => pouDecl (programDecl levels)
  | .keyword .FUNCTION => pouDecl (functionDecl levels)
  | .keyword .FUNCTION_BLOCK => pouDecl functionBlock
  | .keyword .CLASS => pouDecl (classDecl levels)
  | .keyword .INTERFACE => pouDecl (interfaceDecl levels)
  | .keyword .METHOD => pouDecl (Pou.method <$> method levels)
  | .keyword .DATA_BLOCK => pouDecl (dataBlockDecl levels)
  | .keyword .ORGANIZATION_BLOCK => pouDecl (organizationBlockDecl levels)
  | .keyword .TYPE => some <$> typesDecl levels
  | .keyword .VAR_GLOBAL =>
    let block ← varBlock levels
    some <$> node t.span fun s => .globals s block
  | .keyword .NAMESPACE => some <$> spaceDecl declaration
  | .mark .semicolon =>
    let _ ← advance
    return none
  | _ => failExpecting "declaration"

/-- A declaration, from the rule for a function block, when `levels` more constructs may be
opened. -/
def declarationWith (functionBlock : Nat → Rule Pou) : (levels : Nat) → Rule (Option Decl)
  | 0 => tooDeep
  | levels + 1 =>
    nested (declarationBody (functionBlock levels) (declarationWith functionBlock levels) levels)

/-- The declarations of a text, from the rule for one. -/
def unitWith (declaration : Rule (Option Decl)) : Rule CompilationUnit := do
  let decls ← declarationsUntil none declaration
  let span : Span := ⟨0, (← sourceText).length, Nat.zero_le _⟩
  recordNode span
  return ⟨span, decls⟩

/-- The declarations of a text. -/
def compilationUnit (levels : Nat) : Rule CompilationUnit :=
  unitWith (declarationWith functionBlockDecl levels)

end Plc.Grammar
