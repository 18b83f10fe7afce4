/-
Statements.

A statement is an assignment, a call, a jump, or a construct that owns lists of
statements: branches, loops and regions.

* `Stmt.bodies` — the statement lists that a statement owns;
* `Stmt.roots` — the expressions that it owns itself.
-/
import Plc.Tree.Expr

namespace Plc

/-- The ways to assign. -/
inductive AssignOp where
  | assign | add | sub | mul | div
  deriving DecidableEq

namespace AssignOp

/-- The mark that assigns. -/
def mark : AssignOp → Mark
  | .assign => .assign
  | .add => .plusAssign
  | .sub => .minusAssign
  | .mul => .starAssign
  | .div => .slashAssign

/-- The way of assigning that a lexeme stands for. -/
def ofLexeme? : Lexeme → Option AssignOp
  | .mark .assign => some .assign
  | .mark .plusAssign => some .add
  | .mark .minusAssign => some .sub
  | .mark .starAssign => some .mul
  | .mark .slashAssign => some .div
  | _ => none

theorem ofLexeme?_mark (op : AssignOp) : ofLexeme? (.mark op.mark) = some op := by
  cases op <;> rfl

end AssignOp

/-- A label of a `CASE` branch: one value, or an inclusive range. -/
inductive CaseSelector where
  | value (span : Span) (value : Expr)
  | range (span : Span) (low high : Expr)

namespace CaseSelector

/-- The place of the label in the text. -/
def span : CaseSelector → Span
  | .value s _ | .range s _ _ => s

/-- The expressions of the label. -/
def roots : CaseSelector → List Expr
  | .value _ v => [v]
  | .range _ l h => [l, h]

end CaseSelector

mutual

/-- A statement. -/
inductive Stmt where
  | assignment (span : Span) (target : Variable) (op : AssignOp) (value : Expr)
  | ifThen (span : Span) (first : IfBranch) (elsifs : List IfBranch) (otherwise : Option (List Stmt))
  | caseOf (span : Span) (selector : Expr) (branches : List CaseBranch)
      (otherwise : Option (List Stmt))
  | forLoop (span : Span) (control : String) (start stop : Expr) (step : Option Expr)
      (body : List Stmt)
  | whileLoop (span : Span) (condition : Expr) (body : List Stmt)
  | repeatLoop (span : Span) (body : List Stmt) (condition : Expr)
  | exitLoop (span : Span)
  | nextPass (span : Span)
  | leave (span : Span) (value : Option Expr)
  /-- A call whose result is discarded; the call has a place of its own. -/
  | call (span callSpan : Span) (name : String) (args : List Arg)
  /-- A call of a declared function block instance. -/
  | invoke (span : Span) (callee : Variable) (args : List Arg)
  | empty (span : Span)
  | goto (span : Span) (label : String)
  | label (span : Span) (name : String)
  | region (span : Span) (title : String) (body : List Stmt)

/-- A condition and the statements run when it holds. -/
inductive IfBranch where
  | mk (span : Span) (condition : Expr) (body : List Stmt)

/-- Labels and the statements run when one of them matches. -/
inductive CaseBranch where
  | mk (span : Span) (selectors : List CaseSelector) (body : List Stmt)

end

namespace IfBranch

/-- The place of the branch in the text. -/
def span : IfBranch → Span
  | .mk s _ _ => s

/-- The condition of the branch. -/
def condition : IfBranch → Expr
  | .mk _ c _ => c

/-- The statements of the branch. -/
def body : IfBranch → List Stmt
  | .mk _ _ b => b

end IfBranch

namespace CaseBranch

/-- The place of the branch in the text. -/
def span : CaseBranch → Span
  | .mk s _ _ => s

/-- The labels of the branch. -/
def selectors : CaseBranch → List CaseSelector
  | .mk _ ss _ => ss

/-- The statements of the branch. -/
def body : CaseBranch → List Stmt
  | .mk _ _ b => b

end CaseBranch

namespace Stmt

/-- The place of the statement in the text. -/
def span : Stmt → Span
  | .assignment s _ _ _ | .ifThen s _ _ _ | .caseOf s _ _ _ | .forLoop s _ _ _ _ _
  | .whileLoop s _ _ | .repeatLoop s _ _ | .exitLoop s | .nextPass s | .leave s _
  | .call s _ _ _ | .invoke s _ _ | .empty s | .goto s _ | .label s _ | .region s _ _ => s

/-- The statement lists that the statement owns, in the order of the text. -/
def bodies : Stmt → List (List Stmt)
  | .ifThen _ first elsifs otherwise =>
    first.body :: elsifs.map IfBranch.body ++ otherwise.toList
  | .caseOf _ _ branches otherwise => branches.map CaseBranch.body ++ otherwise.toList
  | .forLoop _ _ _ _ _ body | .whileLoop _ _ body | .repeatLoop _ body _ | .region _ _ body =>
    [body]
  | _ => []

/-- The expressions that the statement owns itself, in the order of the text. -/
def roots : Stmt → List Expr
  | .assignment _ target _ value => [.variable target, value]
  | .ifThen _ first elsifs _ => first.condition :: elsifs.map IfBranch.condition
  | .caseOf _ selector branches _ =>
    selector :: branches.flatMap fun b => b.selectors.flatMap CaseSelector.roots
  | .forLoop _ _ start stop step _ => start :: stop :: step.toList
  | .whileLoop _ condition _ => [condition]
  | .repeatLoop _ _ condition => [condition]
  | .leave _ value => value.toList
  | .call _ callSpan name args => [.call callSpan name args]
  | .invoke _ callee args => .variable callee :: args.filterMap Arg.expr?
  | _ => []

end Stmt

end Plc
