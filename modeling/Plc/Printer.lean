/-
Writing expressions, statements and types.

Parentheses are written only where the precedence of operators asks for them, beside those that the
tree itself records.  One statement stands on a line, reserved words are in capitals, and what a
construct owns is indented by four blanks more.  Comments, annotations and the layout of the
source are not kept.

* `Expr.render` — an expression inside an operator of the given precedence;
* `Expr.operand` — an expression as an operand: `NOT` takes a whole comparison, so it is bracketed
  beside anything that binds as tightly as one;
* `Stmt.lines` — the lines of a statement at a depth of indentation;
* `Stmt.textAll` — the text of a list of statements;
* `TypeSpec.text` — a type on one line.
-/
import Plc.Text.Blank
import Plc.Tree.Expr
import Plc.Tree.Stmt
import Plc.Tree.Decl

namespace Plc

/-- The precedence of signs and accesses: tighter than every operator. -/
def tightest : Nat := 8

/-- The texts with commas between them. -/
def commas (parts : List String) : String :=
  ", ".intercalate parts

/-- The text in parentheses. -/
def parens (text : String) : String :=
  "(" ++ text ++ ")"

/-- The name as it is written. -/
def NameStyle.render (style : NameStyle) (name : String) : String :=
  match style with
  | .plain => name
  | .quoted => "\"" ++ name ++ "\""
  | .blockLocal => "#" ++ name

/-- The least precedence that the left operand may have without parentheses. -/
def BinaryOp.leftPrecedence (op : BinaryOp) : Nat :=
  if op = .power then op.precedence + 1 else op.precedence

/-- The least precedence that the right operand may have without parentheses. -/
def BinaryOp.rightPrecedence (op : BinaryOp) : Nat :=
  if op = .power then op.precedence else op.precedence + 1

namespace Expr

/-- The expression is a negation of a truth value. -/
def isNot : Expr → Bool
  | .unary _ .not _ => true
  | _ => false

/-- The expression is a sign or `NOT` before an operand. -/
def isUnary : Expr → Bool
  | .unary _ _ _ => true
  | _ => false

end Expr

mutual

/-- A variable. -/
def Variable.render : Variable → String
  | .named _ name style => style.render name
  | .address _ text _ => text
  | .member _ base member => base.render ++ "." ++ member
  | .element _ base indices => base.render ++ "[" ++ commas (Expr.renderAll indices) ++ "]"
  | .deref _ base => base.render ++ "^"

/-- An expression inside an operator of precedence `outer`; zero stands for no operator. -/
def Expr.render : (outer : Nat) → Expr → String
  | _, .literal _ l => l.text
  | _, .variable v => v.render
  | _, .unary _ .not x => "NOT " ++ x.render BinaryOp.eq.precedence
  | _, .unary _ .neg x =>
    let text := x.render tightest
    "-" ++ (if x.isUnary || text.startsWith "-" then parens text else text)
  | outer, .binary _ op l r =>
    let bracketed (x : Expr) : Bool := x.isNot && !op.isLogical
    let left := if bracketed l then parens (l.render 0) else l.render op.leftPrecedence
    let right := if bracketed r then parens (r.render 0) else r.render op.rightPrecedence
    let text := left ++ " " ++ op.symbol ++ " " ++ right
    if op.precedence < outer then parens text else text
  | _, .paren _ x => parens (x.render 0)
  | _, .call _ name args => name ++ parens (commas (Arg.renderAll args))
  | _, .repeated _ n (some x) => toString n ++ parens (x.render 0)
  | _, .repeated _ n none => toString n ++ "()"
  | _, .arrayInit _ es => "[" ++ commas (Expr.renderAll es) ++ "]"
  | _, .structInit _ fs => parens (commas (Arg.renderAll fs))

/-- An argument of a call; an empty place is the empty text. -/
def Arg.render : Arg → String
  | .positional _ x => x.render 0
  | .named _ name x => name ++ " := " ++ x.render 0
  | .output _ name v negated => (if negated then "NOT " else "") ++ name ++ " => " ++ v.render
  | .inferred _ => ""

/-- Each expression of a list, inside no operator. -/
def Expr.renderAll : List Expr → List String
  | [] => []
  | x :: xs => x.render 0 :: Expr.renderAll xs

/-- Each argument of a list. -/
def Arg.renderAll : List Arg → List String
  | [] => []
  | x :: xs => x.render :: Arg.renderAll xs

end

/-- An expression on its own. -/
def Expr.text (e : Expr) : String :=
  e.render 0

/-- A line at a depth of indentation. -/
def indented (depth : Nat) (text : String) : String :=
  String.ofList (List.replicate (4 * depth) ' ') ++ text

namespace CaseSelector

/-- A label of a branch. -/
def text : CaseSelector → String
  | .value _ x => x.text
  | .range _ low high => low.text ++ ".." ++ high.text

end CaseSelector

mutual

/-- The lines of a statement. -/
def Stmt.lines (depth : Nat) : Stmt → List String
  | .assignment _ target op value =>
    [indented depth (target.render ++ " " ++ op.mark.symbol ++ " " ++ value.text ++ ";")]
  | .ifThen _ (.mk _ condition body) elsifs otherwise =>
    indented depth ("IF " ++ condition.text ++ " THEN") :: Stmt.linesAll (depth + 1) body ++
      IfBranch.linesAll depth elsifs ++
      (match otherwise with
        | some ss => indented depth "ELSE" :: Stmt.linesAll (depth + 1) ss
        | none => []) ++
      [indented depth "END_IF;"]
  | .caseOf _ selector branches otherwise =>
    indented depth ("CASE " ++ selector.text ++ " OF") :: CaseBranch.linesAll (depth + 1) branches ++
      (match otherwise with
        | some ss => indented depth "ELSE" :: Stmt.linesAll (depth + 1) ss
        | none => []) ++
      [indented depth "END_CASE;"]
  | .forLoop _ control start stop step body =>
    let by_ := match step with
      | some x => " BY " ++ x.text
      | none => ""
    indented depth ("FOR " ++ control ++ " := " ++ start.text ++ " TO " ++ stop.text ++ by_ ++ " DO") ::
      Stmt.linesAll (depth + 1) body ++ [indented depth "END_FOR;"]
  | .whileLoop _ condition body =>
    indented depth ("WHILE " ++ condition.text ++ " DO") :: Stmt.linesAll (depth + 1) body ++
      [indented depth "END_WHILE;"]
  | .repeatLoop _ body condition =>
    indented depth "REPEAT" :: Stmt.linesAll (depth + 1) body ++
      [indented depth ("UNTIL " ++ condition.text), indented depth "END_REPEAT;"]
  | .exitLoop _ => [indented depth "EXIT;"]
  | .nextPass _ => [indented depth "CONTINUE;"]
  | .leave _ (some x) => [indented depth ("RETURN " ++ x.text ++ ";")]
  | .leave _ none => [indented depth "RETURN;"]
  | .call _ callSpan name args => [indented depth ((Expr.call callSpan name args).text ++ ";")]
  | .invoke _ callee args =>
    [indented depth (callee.render ++ parens (commas (Arg.renderAll args)) ++ ";")]
  | .empty _ => [indented depth ";"]
  | .goto _ label => [indented depth ("GOTO " ++ label ++ ";")]
  | .label _ name => [indented depth (name ++ ":")]
  | .region _ title body =>
    indented depth (String.ofList (Text.trimEnd ("REGION " ++ title).toList)) ::
      Stmt.linesAll (depth + 1) body ++ [indented depth "END_REGION"]

/-- The lines of a list of statements. -/
def Stmt.linesAll (depth : Nat) : List Stmt → List String
  | [] => []
  | s :: ss => s.lines depth ++ Stmt.linesAll depth ss

/-- The lines of the branches after the first. -/
def IfBranch.linesAll (depth : Nat) : List IfBranch → List String
  | [] => []
  | .mk _ condition body :: bs =>
    indented depth ("ELSIF " ++ condition.text ++ " THEN") :: Stmt.linesAll (depth + 1) body ++
      IfBranch.linesAll depth bs

/-- The lines of the branches of a `CASE` statement. -/
def CaseBranch.linesAll (depth : Nat) : List CaseBranch → List String
  | [] => []
  | .mk _ selectors body :: bs =>
    indented depth (commas (selectors.map CaseSelector.text) ++ ":") ::
      Stmt.linesAll (depth + 1) body ++ CaseBranch.linesAll depth bs

end

/-- The text of a list of statements at a depth of indentation. -/
def Stmt.textAll (stmts : List Stmt) (depth : Nat := 0) : String :=
  String.join ((Stmt.linesAll depth stmts).map (· ++ "\n"))

/-- The bounds of a dimension. -/
def Dimension.text (d : Dimension) : String :=
  d.low.text ++ ".." ++ d.high.text

/-- A member of an enumeration. -/
def EnumMember.text (m : EnumMember) : String :=
  match m.value with
  | some x => m.name ++ " := " ++ x.text
  | none => m.name

mutual

/-- A type on one line. -/
def TypeSpec.text : TypeSpec → String
  | .elementary _ name (some length) => name ++ "[" ++ length.text ++ "]"
  | .elementary _ name none => name
  | .named _ name => name
  | .array _ dims element => "ARRAY[" ++ commas (dims.map Dimension.text) ++ "] OF " ++ element.text
  | .ref _ inner => "REF_TO " ++ inner.text
  | .subrange _ base low high => base ++ parens (low.text ++ ".." ++ high.text)
  | .enum _ members base =>
    let text := parens (commas (members.map EnumMember.text))
    match base with
    | some b => text ++ " " ++ b
    | none => text
  | .struct _ fields => " ".intercalate ("STRUCT" :: StructField.textAll fields ++ ["END_STRUCT"])

/-- The fields of a structure. -/
def StructField.textAll : List StructField → List String
  | [] => []
  | .mk _ name type initial :: fs =>
    let value := match initial with
      | some x => " := " ++ x.text
      | none => ""
    (name ++ " : " ++ type.text ++ value ++ ";") :: StructField.textAll fs

end

end Plc
