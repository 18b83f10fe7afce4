/-
Reading statements.

A list of statements runs up to a word that ends some construct; the construct that
owns the list then checks that the word is its own.

* `statementList` — statements up to a terminator;
* `body` — the statements of an organization unit or of a bare text;
* `statement` — one statement, by the number of constructs that may still be opened.

When errors are recovered from, a statement that fails is dropped and the reading goes on at
the next semicolon or statement word, and stray `END` words in a body are reported and skipped.
-/
import Plc.Grammar.Expr
import Plc.Tree.Stmt
import Plc.Text.Blank

namespace Plc.Grammar

/-! ### Words that end and begin statements -/

/-- The words that close a construct. -/
def endWords : List Keyword := [
  .END_IF, .END_CASE, .END_FOR, .END_WHILE, .END_REPEAT, .END_PROGRAM, .END_FUNCTION,
  .END_FUNCTION_BLOCK, .END_METHOD, .END_CLASS, .END_INTERFACE, .END_NAMESPACE, .END_REGION,
  .END_DATA_BLOCK, .END_ORGANIZATION_BLOCK, .END_VAR, .END_TYPE, .END_STRUCT]

/-- The words that open a declaration. -/
def declarationWords : List Keyword := [
  .FUNCTION, .FUNCTION_BLOCK, .PROGRAM, .CLASS, .INTERFACE, .METHOD, .TYPE, .VAR_GLOBAL,
  .NAMESPACE, .DATA_BLOCK, .ORGANIZATION_BLOCK]

/-- The words that open a block of variables. -/
def varBlockWords : List Keyword := [
  .VAR, .VAR_INPUT, .VAR_OUTPUT, .VAR_IN_OUT, .VAR_TEMP, .VAR_GLOBAL, .VAR_EXTERNAL, .VAR_ACCESS,
  .VAR_CONFIG]

/-- The words that open a statement. -/
def statementWords : List Keyword := [
  .IF, .CASE, .FOR, .WHILE, .REPEAT, .EXIT, .CONTINUE, .RETURN, .REGION, .GOTO]

/-- A lexeme that ends every list of statements. -/
def endsStatements (l : Lexeme) : Bool :=
  l.isFinish || l.isAmong endWords || l.isAmong declarationWords || l.isAmong varBlockWords ||
    l.isAmong [.ELSIF, .ELSE, .UNTIL]

/-- A lexeme at which the reading of statements goes on after an error. -/
def resumesStatements (l : Lexeme) : Bool :=
  l.isAmong statementWords || endsStatements l

/-! ### Lists of statements -/

/-- Statements up to a terminator, or up to a place where `stop` holds. -/
def statementListUntil (stop : Rule Bool) (statement : Rule Stmt) : Rule (List Stmt) := do
  let more : Rule Bool := do
    if endsStatements (← lexeme) then return false else return !(← stop)
  let item (size : Nat) : Rule (List Stmt) := do
    match ← recovering resumesStatements true statement with
    | some s =>
      checkSize (size + 1) s.span
      return [s]
    | none => return []
  many more item (← passes) 0

/-- Statements up to a terminator. -/
def statementList (statement : Rule Stmt) : Rule (List Stmt) :=
  statementListUntil (return false) statement

/-- Checks the size of a list of statements after each of some more. -/
def checkSizes : Nat → List Stmt → Rule Unit
  | _, [] => return ()
  | size, s :: ss => do
    checkSize (size + 1) s.span
    checkSizes (size + 1) ss

/-- The words that may end a body, as messages ask for them. -/
def describeEnds : List Keyword → String
  | [] => "end of input"
  | ends => " or ".intercalate (ends.map fun k => (Terminal.keyword k).quoted)

/-- A lexeme that should not come after the statements of a body that ends with one of the given
words. -/
def isStray (ends : List Keyword) (l : Lexeme) : Bool :=
  !(l.isAmong ends || l.isFinish || l.isAmong declarationWords)

/-- Errors are recovered from, and a stray token comes next. -/
def seesStray (ends : List Keyword) : Rule Bool := do
  let l ← lexeme
  return (← read).recovers && isStray ends l

/-- Reports a stray token, passes over it, and reads the statements that follow. -/
def afterStray (statement : Rule Stmt) (ends : List Keyword) (size : Nat) : Rule (List Stmt) := do
  report (← unexpected (describeEnds ends))
  let _ ← advance
  let _ ← accept Mark.semicolon
  let stmts ← statementList statement
  checkSizes size stmts
  return stmts

/-- The statements of a body that ends with one of the given words, or with the text when there
are none. -/
def bodyWith (statement : Rule Stmt) (ends : List Keyword) : Rule (List Stmt) := do
  let first ← statementList statement
  let others ← many (seesStray ends) (afterStray statement ends) (← passes) first.length
  return first ++ others

/-! ### Simple statements -/

/-- An assignment, or a call as a statement.  The call of a declared name invokes a function block
instance. -/
def assignmentOrCall (expression : Rule Expr) : Rule Stmt := do
  let start ← peek
  let target ← variableWith expression
  if ← sees Mark.leftParen then
    match target.path? with
    | none => notCallable .invalidStatement target
    | some name =>
      let args ← callArgs expression
      if ← isDeclared (target.root?.getD name) then
        expectSemicolon
        node start.span fun s => .invoke s target args
      else
        let callSpan ← node start.span id
        expectSemicolon
        node start.span fun s => .call s callSpan name args
  else
    match AssignOp.ofLexeme? (← lexeme) with
    | none => failExpecting (Terminal.mark .assign).quoted
    | some op =>
      let _ ← advance
      let value ← expression
      expectSemicolon
      node start.span fun s => .assignment s target op value

/-- A jump of one word. -/
def oneWord (build : Span → Stmt) : Rule Stmt := do
  let t ← advance
  expectSemicolon
  node t.span build

/-- `RETURN`, with a value perhaps. -/
def leaveStmt (expression : Rule Expr) : Rule Stmt := do
  let t ← advance
  let l ← lexeme
  let value ← if l.is Mark.semicolon || endsStatements l then pure none else some <$> expression
  expectSemicolon
  node t.span fun s => .leave s value

/-- `GOTO` a label. -/
def gotoStmt : Rule Stmt := do
  let t ← advance
  let label ← expectName "label"
  expectSemicolon
  node t.span fun s => .goto s label.text

/-! ### Constructs -/

/-- The word that closes a construct, and a semicolon perhaps.  At the end of the text the error is
about the word that opened it. -/
def endConstruct (close : Keyword) (opener : Span) : Rule Unit := do
  if ← sees close then
    let _ ← advance
    let _ ← accept Mark.semicolon
  else if ← atEnd then
    fail { kind := .missingTerminator, span := opener, expected := some (Terminal.keyword close).quoted }
  else
    failExpecting (Terminal.keyword close).quoted

/-- A condition, `THEN` and statements.  The word before them is given. -/
def ifBranch (expression : Rule Expr) (statement : Rule Stmt) (opener : Token) : Rule IfBranch := do
  let condition ← expression
  let _ ← expect Keyword.THEN
  let body ← statementList statement
  node opener.span fun s => .mk s condition body

/-- Statements after `ELSE`, if it comes. -/
def elseBody (statement : Rule Stmt) : Rule (Option (List Stmt)) := do
  if ← accept Keyword.ELSE then some <$> statementList statement else return none

/-- `IF`, with its branches. -/
def ifStmt (expression : Rule Expr) (statement : Rule Stmt) : Rule Stmt := do
  let t ← advance
  let first ← ifBranch expression statement t
  let item (size : Nat) : Rule (List IfBranch) := do
    let opener ← advance
    let branch ← ifBranch expression statement opener
    checkSize (size + 1) branch.span
    return [branch]
  let elsifs ← many (sees Keyword.ELSIF) item (← passes) 0
  let otherwise ← elseBody statement
  endConstruct .END_IF t.span
  node t.span fun s => .ifThen s first elsifs otherwise

/-- A label of a `CASE` branch. -/
def caseSelector (expression : Rule Expr) : Rule CaseSelector := do
  let start ← peek
  let low ← expression
  if ← accept Mark.range then
    let high ← expression
    node start.span fun s => .range s low high
  else
    node start.span fun s => .value s low

/-- The lexemes after any number of points and names. -/
def afterMembers : List Lexeme → List Lexeme
  | dot :: word :: ls =>
    if dot.is Mark.dot && word.isName then afterMembers ls else dot :: word :: ls
  | ls => ls

/-- A lexeme that may follow a label of a `CASE` branch. -/
def followsLabel : Lexeme → Bool
  | .mark .colon | .mark .comma | .mark .range => true
  | _ => false

/-- The lexemes begin a label of a `CASE` branch rather than a statement. -/
def beginsCaseLabel (d : Dialect) : List Lexeme → Bool
  | [] => false
  | l :: ls =>
    let next := ls.headD .finish
    match l with
    | .integer _ | .real _ | .string _ => true
    | .mark .minus =>
      match next with
      | .integer _ | .real _ => true
      | _ => false
    | .name =>
      d.namedCaseLabels && (next.is Mark.hash || followsLabel ((afterMembers ls).headD .finish))
    | _ => false

/-- A branch of a `CASE` statement runs up to the label of the next. -/
def caseBranch (expression : Rule Expr) (statement : Rule Stmt) : Rule CaseBranch := do
  let start ← peek
  let selectors ← commaList (caseSelector expression) CaseSelector.span
  let _ ← expect Mark.colon
  let stop : Rule Bool := do
    return beginsCaseLabel (← dialect) ((← tokensLeft).map Token.lexeme)
  let body ← statementListUntil stop statement
  node start.span fun s => .mk s selectors body

/-- `CASE`, with its branches. -/
def caseStmt (expression : Rule Expr) (statement : Rule Stmt) : Rule Stmt := do
  let t ← advance
  let selector ← expression
  let _ ← expect Keyword.OF
  let more : Rule Bool := do
    let l ← lexeme
    return !(l.isFinish || l.isAmong [.ELSE, .END_CASE])
  let item (size : Nat) : Rule (List CaseBranch) := do
    let branch ← caseBranch expression statement
    checkSize (size + 1) branch.span
    return [branch]
  let branches ← many more item (← passes) 0
  let otherwise ← elseBody statement
  endConstruct .END_CASE t.span
  node t.span fun s => .caseOf s selector branches otherwise

/-- `FOR`, with its bounds. -/
def forStmt (expression : Rule Expr) (statement : Rule Stmt) : Rule Stmt := do
  let t ← advance
  if (← dialect).localMark then
    let _ ← accept Mark.hash
  let control ← expectAnyName "loop variable"
  let _ ← expect Mark.assign
  let start ← expression
  let _ ← expect Keyword.TO
  let stop ← expression
  let step ← if ← accept Keyword.BY then some <$> expression else pure none
  let _ ← expect Keyword.DO
  let body ← statementList statement
  endConstruct .END_FOR t.span
  node t.span fun s => .forLoop s control.nameText start stop step body

/-- `WHILE`, with its condition. -/
def whileStmt (expression : Rule Expr) (statement : Rule Stmt) : Rule Stmt := do
  let t ← advance
  let condition ← expression
  let _ ← expect Keyword.DO
  let body ← statementList statement
  endConstruct .END_WHILE t.span
  node t.span fun s => .whileLoop s condition body

/-- `REPEAT`, with its condition at the end. -/
def repeatStmt (expression : Rule Expr) (statement : Rule Stmt) : Rule Stmt := do
  let t ← advance
  let body ← statementList statement
  let _ ← expect Keyword.UNTIL
  let condition ← expression
  let _ ← accept Mark.semicolon
  endConstruct .END_REPEAT t.span
  node t.span fun s => .repeatLoop s body condition

/-- Passes over the tokens that begin before the given offset. -/
def skipBefore (stop : Nat) : Rule Unit := do
  let more : Rule Bool := do
    return !(← atEnd) && (← peek).span.start < stop
  let item (_ : Nat) : Rule (List Unit) := do
    let _ ← advance
    return []
  let _ ← many more item (← passes) 0

/-- The characters from an offset to the end of its line, without the blanks at either end; and
the offset of that end. -/
def restOfLine (start : Nat) : Rule (List Char × Nat) := do
  let source ← sourceText
  let stop := Text.lineStop source start
  return (Text.trim (Text.slice source start stop), stop)

/-- `REGION`; the rest of its line is its title, whatever it holds. -/
def regionStmt (statement : Rule Stmt) : Rule Stmt := do
  let t ← advance
  let (title, lineEnd) ← restOfLine t.span.stop
  skipBefore lineEnd
  let body ← statementList statement
  endConstruct .END_REGION t.span
  node t.span fun s => .region s (String.ofList title) body

/-! ### One statement -/

/-- A statement that begins with no word of its own. -/
def plainStmt (expression : Rule Expr) : Rule Stmt := do
  let t ← peek
  if t.lexeme.is Mark.semicolon then
    let _ ← advance
    node t.span .empty
  else if (← dialect).blocks && t.lexeme.isName && (← lexemeAt 1).is Mark.colon then
    let _ ← advance
    let _ ← advance
    node t.span fun s => .label s t.text
  else if beginsVariable t.lexeme then
    assignmentOrCall expression
  else
    failInvalid .invalidStatement

/-- A statement, from the rules for what stands inside it. -/
def statementBody (expression : Rule Expr) (statement : Rule Stmt) : Rule Stmt := do
  match ← lexeme with
  | .keyword .IF => ifStmt expression statement
  | .keyword .CASE => caseStmt expression statement
  | .keyword .FOR => forStmt expression statement
  | .keyword .WHILE => whileStmt expression statement
  | .keyword .REPEAT => repeatStmt expression statement
  | .keyword .EXIT => oneWord .exitLoop
  | .keyword .CONTINUE => oneWord .nextPass
  | .keyword .RETURN => leaveStmt expression
  | .keyword .GOTO => gotoStmt
  | .keyword .REGION => regionStmt statement
  | _ => plainStmt expression

/-- A statement, when `levels` more constructs may be opened. -/
def statement : (levels : Nat) → Rule Stmt
  | 0 => tooDeep
  | levels + 1 => nested (statementBody (expression levels) (statement levels))

/-- The statements of a body. -/
def body (levels : Nat) (ends : List Keyword) : Rule (List Stmt) :=
  bodyWith (statement levels) ends

/-- The text must end here; when errors are recovered from, what comes instead is reported. -/
def finishText : Rule Unit := do
  if (← read).recovers && !(← atEnd) then
    report (← unexpected "end of input")
  else
    expectEnd

/-- A bare list of statements that runs to the end of the text, in which the given names are
declared. -/
def allStatements (levels : Nat) (declared : List String) : Rule (List Stmt) := do
  let stmts ← declaring declared (body levels [])
  finishText
  return stmts

end Plc.Grammar
