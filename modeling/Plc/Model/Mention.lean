/-
Mentions of names in code.

Code mentions a name either as a tag that it reads or writes, or as something that it calls.

In an instruction list each line is a label perhaps, an operator, and an operand.  Jumps mention no
tag, and of a call only the name before the parenthesis counts.  A body in Structured Text that can be
read is walked expression by expression.  One that cannot is searched token by token; there a name
counts as a mention where a variable or the name of a call can stand.

* `Place.path` — the place of a mention in one text;
* `Mention.ofInstruction`, `Mention.ofInstructionList` — what ladders and instruction lists mention;
* `Mention.ofStatements`, `Mention.ofTokens` — what Structured Text mentions;
* `Body.mentions` — what a body in any language mentions, in the order of the code.
-/
import Plc.Ladder.Listing
import Plc.Ladder.Rung
import Plc.Model.Body
import Plc.Printer
import Plc.Reading
import Plc.Text.Blank
import Plc.Tree.Walk

namespace Plc.Model

/-- A place in the code of a project. -/
structure Place where
  pou : String
  routine : Option String := none
  rung : Option Int := none

/-- The place in one text. -/
def Place.path (p : Place) : String :=
  "/".intercalate ([p.pou] ++ p.routine.toList ++
    (p.rung.map fun n => "Rung#" ++ toString n).toList)

/-- A tag that code reads or writes. -/
structure Reference where
  tag : String
  /-- The access as it is written. -/
  operand : String
  /-- The instruction, or the language of the text. -/
  instruction : String
  place : Place

/-- What code mentions. -/
inductive Mention where
  | tag (r : Reference)
  | call (name : String)

namespace Mention

/-- The reference that a mention is. -/
def reference? : Mention → Option Reference
  | .tag r => some r
  | .call _ => none

/-- The name that a mention calls. -/
def call? : Mention → Option String
  | .tag _ => none
  | .call name => some name

/-- The tags that an operand in text mentions. -/
def ofOperand (operand instruction : String) (place : Place) : Except Fault (List Mention) := do
  let v ← Ladder.Operand.value operand
  return v.tags.map fun name => .tag ⟨name, operand, instruction, place⟩

/-- What an instruction of a ladder mentions: itself, and the tags in its operands. -/
def ofInstruction (place : Place) (i : Ladder.Instruction) : Except Fault (List Mention) := do
  let uses ← i.tagUses
  return .call i.mnemonic :: uses.map fun u => .tag ⟨u.name, u.operand, u.instruction, place⟩

/-! ### Instruction lists -/

open Text

/-- The operators that are known. -/
def listOperators : List String := [
  "LD", "LDN", "ST", "STN", "S", "R", "AND", "ANDN", "OR", "ORN", "XOR", "XORN", "NOT", "ADD",
  "SUB", "MUL", "DIV", "MOD", "GT", "GE", "EQ", "NE", "LE", "LT", "JMP", "JMPC", "JMPCN", "CAL",
  "CALC", "CALCN", "RET", "RETC", "RETCN"]

/-- What follows the end of a comment, if it ends. -/
def afterComment? : List Char → Option (List Char)
  | '*' :: ')' :: cs => some cs
  | _ :: cs => afterComment? cs
  | [] => none

theorem length_of_afterComment? {cs rest : List Char} (h : afterComment? cs = some rest) :
    rest.length < cs.length := by
  fun_induction afterComment? cs with
  | case1 cs =>
    cases h
    simp only [List.length_cons]
    omega
  | case2 c cs hc ih =>
    have := ih h
    simp only [List.length_cons]
    omega
  | case3 => cases h

/-- The line without comments that end in it. -/
def withoutComments : List Char → List Char
  | '(' :: '*' :: cs =>
    match _h : afterComment? cs with
    | some rest => withoutComments rest
    | none => '(' :: '*' :: cs
  | c :: cs => c :: withoutComments cs
  | [] => []
termination_by cs => cs.length
decreasing_by
  · have := length_of_afterComment? _h
    simp only [List.length_cons]
    omega
  · simp

/-- The line without the label it begins with; `:=` is no end of a label. -/
def withoutLabel (line : List Char) : List Char :=
  match line.dropWhile (· != ':') with
  | _ :: rest =>
    if Text.isIdentifier (trim (line.takeWhile (· != ':'))) && rest.head? != some '=' then trim rest
    else line
  | [] => line

/-- The operator and the operand in a line, if it has both. -/
def operation? (line : List Char) : Option (String × List Char) :=
  let line := withoutLabel (trim (beforeComment (withoutComments line)))
  let isText := fun c => !isBlank c
  match (line.dropWhile isText).dropWhile isBlank with
  | [] => none
  | operands =>
    some (upper (String.ofList (line.takeWhile isText)), trim (operands.takeWhile (· != ',')))

/-- What a line of an instruction list mentions. -/
def ofLine (place : Place) (line : List Char) : Except Fault (List Mention) :=
  match operation? line with
  | none => .ok []
  | some (operator, operand) =>
    let operand := if operator.startsWith "CAL" then trim (operand.takeWhile (· != '(')) else operand
    let text := String.ofList operand
    if operator.startsWith "JMP" || ["TRUE", "FALSE"].contains (upper text) || operand.contains '#'
    then .ok []
    else ofOperand text (if listOperators.contains operator then operator else "IL") place

/-- What an instruction list mentions. -/
def ofInstructionList (pou text : String) : Except Fault (List Mention) := do
  let found ← (lines text.toList).mapM (ofLine ⟨pou, none, none⟩)
  return found.flatten

end Mention

/-- The organization unit that text belongs to. -/
structure Surroundings where
  /-- The name of the unit. -/
  pou : String
  /-- The names of its variables. -/
  vars : List String := []
  /-- The name through which a function gives its result. -/
  result : Option String := none
  dialect : Dialect := .generic

namespace Mention

/-- A name before parentheses: an instance if it is a variable, otherwise a call. -/
def ofCallee (s : Surroundings) (name : String) : Mention :=
  if s.vars.contains name then .tag ⟨name, name, "ST", ⟨s.pou, none, none⟩⟩ else .call name

/-! ### Statements -/

/-- What an expression mentions: its variables, then its calls. -/
def ofExpr (s : Surroundings) (root : Expr) : List Mention :=
  (root.accesses.filter fun a => some a.1 != s.result).map
      (fun a => .tag ⟨a.1, (Expr.variable a.2).text, "ST", ⟨s.pou, none, none⟩⟩) ++
    root.subexpressions.filterMap fun
      | .call _ name _ => some (ofCallee s name)
      | _ => none

/-- What statements mention. -/
def ofStatements (s : Surroundings) (stmts : List Stmt) : List Mention :=
  (Stmt.flattenAll stmts).flatMap fun stmt => stmt.roots.flatMap (ofExpr s)

/-! ### Tokens -/

/-- The token is a name, in quotes perhaps. -/
def isNaming (t : Token) : Bool :=
  match t.lexeme with
  | .name | .quotedName _ => true
  | _ => false

/-- The token is the mark. -/
def isMark (m : Mark) (t : Token) : Bool :=
  t.lexeme.is m

/-- The last token of an access that goes on with `.` and a name as often as it can. -/
def lastOfAccess (last : Token) : List Token → Token
  | dot :: name :: rest =>
    if isMark .dot dot && isNaming name then lastOfAccess name rest else last
  | _ => last

/-- The text without the double quotes at either end. -/
def unquoted (text : String) : String :=
  String.ofList (((text.toList.dropWhile (· == '"')).reverse.dropWhile (· == '"')).reverse)

/-- What a name among tokens mentions.  It is no mention after `.`, beside `#` in a typed literal,
or as the name of an argument inside of a call; `before` is in reverse. -/
def ofNaming? (s : Surroundings) (source : List Char) (instruction : String) (before : List Token)
    (inCall : Bool) (t : Token) (after : List Token) : Option Mention :=
  let typed := match before with
    | hash :: type :: _ => isMark .hash hash && isNaming type
    | _ => false
  if before.head?.any (isMark .dot) then none
  else if after.head?.any (isMark .hash) || typed then none
  else if after.head?.any (isMark .leftParen) then some (ofCallee s t.text)
  else if after.head?.any (fun n => isMark .assign n || isMark .arrow n) && inCall then none
  else
    let last := lastOfAccess t after
    some (.tag ⟨unquoted t.text,
      String.ofList (Text.slice source t.span.start last.span.stop), instruction,
      ⟨s.pou, none, none⟩⟩)

/-- What the rest of some tokens mentions; `calls` says of each open parenthesis whether it belongs
to a call. -/
def ofTokens (s : Surroundings) (source : List Char) (instruction : String) (before : List Token)
    (calls : List Bool) : List Token → List Mention
  | [] => []
  | t :: after =>
    let calls := if isMark .leftParen t then before.head?.any isNaming :: calls
      else if isMark .rightParen t then calls.tail
      else calls
    let here := if isNaming t then
        ofNaming? s source instruction before (calls.head? == some true) t after
      else none
    here.toList ++ ofTokens s source instruction (t :: before) calls after

/-- What a text mentions, by its tokens. -/
def ofScan (s : Surroundings) (text instruction : String) : Except Fault (List Mention) := do
  return ofTokens s text.toList instruction [] [] (← tokens s.dialect text.toList)

/-- What a text of statements mentions, by its tokens if it cannot be read. -/
def ofText (s : Surroundings) (text : String) : Except Fault (List Mention) :=
  match { source := text.toList, dialect := s.dialect : Reading }.statements s.vars with
  | .ok stmts => .ok (ofStatements s stmts)
  | .error (.grammar _) | .error (.limit _) => ofScan s text "ST"
  | .error e => .error e

/-! ### Instructions -/

/-- What an operand of a graphical instruction mentions. -/
def ofGraphicalOperand (instruction : String) (place : Place) :
    Operand → Except Fault (List Mention)
  | .tag name text => .ok [.tag ⟨name, text, instruction, place⟩]
  | .expression text => ofOperand text instruction place
  | .literal _ | .address _ => .ok []

/-- What a graphical instruction mentions. -/
def ofGraphicalInstruction (place : Place) (i : Instruction) : Except Fault (List Mention) := do
  let found ← i.operands.mapM (ofGraphicalOperand i.mnemonic place)
  return .call i.mnemonic :: found.flatten

/-- What graphical instructions mention. -/
def ofGraphical (place : Place) (instructions : List Instruction) : Except Fault (List Mention) := do
  let found ← instructions.mapM (ofGraphicalInstruction place)
  return found.flatten

/-- What the text of a rung mentions. -/
def ofRungText (place : Place) (text : List Char) : Except Fault (List Mention) :=
  match Ladder.Listing.instructions text with
  | .ok instructions => do
    let found ← instructions.mapM (ofInstruction place)
    return found.flatten
  | .error e => .error (.limit e)

/-- What a rung mentions; its text is looked at when it has no instructions. -/
def ofRung (pou : String) (r : Rung) : Except Fault (List Mention) :=
  let place : Place := ⟨pou, none, some r.number⟩
  match r.instructions, r.text with
  | [], some text => if text.isEmpty then .ok [] else ofRungText place text.toList
  | instructions, _ => ofGraphical place instructions

/-- What a listing of ladder text mentions. -/
def ofListing (pou text : String) : Except Fault (List Mention) := do
  let found ← (Ladder.Listing.rungs text.toList).mapM fun (routine, number, text) =>
    ofRungText ⟨pou, routine, some number⟩ text
  return found.flatten

end Mention

mutual

/-- What a body mentions. -/
def Body.mentions (s : Surroundings) : Body → Except Fault (List Mention)
  | .structuredText text => Mention.ofText s text
  | .instructionList text => Mention.ofInstructionList s.pou text
  | .ladder rungs => return (← rungs.mapM (Mention.ofRung s.pou)).flatten
  | .blockDiagram networks => do
    let found ← networks.mapM fun n =>
      Mention.ofGraphical ⟨s.pou, none, some n.number⟩ n.instructions
    return found.flatten
  | .chart steps transitions => do
    let inSteps ← Step.mentionsAll s steps
    let inConditions ← transitions.mapM fun t => Mention.ofScan s t.condition "SFC"
    return inSteps ++ inConditions.flatten
  | .other language text =>
    if ["RLL", "LD"].contains (Text.upper language) then Mention.ofListing s.pou text
    else Mention.ofScan s text language

/-- What steps mention. -/
def Step.mentionsAll (s : Surroundings) : List Step → Except Fault (List Mention)
  | [] => return []
  | .mk _ _ actions :: steps => return (← Action.mentionsAll s actions) ++ (← Step.mentionsAll s steps)

/-- What actions mention. -/
def Action.mentionsAll (s : Surroundings) : List Action → Except Fault (List Mention)
  | [] => return []
  | .mk _ _ (some body) :: actions =>
    return (← body.mentions s) ++ (← Action.mentionsAll s actions)
  | .mk _ _ none :: actions => Action.mentionsAll s actions

end

end Plc.Model
