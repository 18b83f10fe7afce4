/-
Reading whole texts.

Each function reads one kind of text under limits and in a dialect.  The strict
functions end at the first error; the recovering ones collect errors and give
what could be read around them.  A passed limit ends both.
-/
import Plc.Grammar.Decl

namespace Plc

open Grammar

/-- A text, and how it is to be read. -/
structure Reading where
  source : List Char
  dialect : Dialect := .generic
  limits : Limits := {}

namespace Reading

/-- Reads with a rule up to the first error. -/
def strictly (r : Reading) (rule : Nat → Rule α) : Except Fault α :=
  (run (rule r.limits.maxDepth) r.source r.limits r.dialect false).map (·.1)

/-- Reads with a rule and collects the errors that can be recovered from. -/
def leniently (r : Reading) (rule : Nat → Rule α) : Except Fault (α × List SyntaxError) :=
  run (rule r.limits.maxDepth) r.source r.limits r.dialect true

/-- A rule that must reach the end of the text. -/
def whole (rule : Nat → Rule α) (levels : Nat) : Rule α := do
  let a ← rule levels
  expectEnd
  return a

/-- The expression that the text is. -/
def expression (r : Reading) : Except Fault Expr :=
  r.strictly (whole Grammar.expression)

/-- The initial value of a declaration that the text is. -/
def initializer (r : Reading) : Except Fault Expr :=
  r.strictly (whole Grammar.initializer)

/-- The type specification that the text begins with. -/
def typeSpec (r : Reading) : Except Fault TypeSpec :=
  r.strictly Grammar.typeSpec

/-- The block of variables that the text begins with. -/
def varBlock (r : Reading) : Except Fault VarBlock :=
  r.strictly Grammar.varBlock

/-- The statements of a text in which the given names are declared. -/
def statements (r : Reading) (declared : List String := []) : Except Fault (List Stmt) :=
  r.strictly fun levels => allStatements levels declared

/-- The statements of a text in which the given names are declared, and the errors in it. -/
def statementsRecovering (r : Reading) (declared : List String := []) :
    Except Fault (List Stmt × List SyntaxError) :=
  r.leniently fun levels => allStatements levels declared

/-- The compilation unit that the text is. -/
def unit (r : Reading) : Except Fault CompilationUnit :=
  r.strictly compilationUnit

/-- The compilation unit that the text is, and the errors in it. -/
def unitRecovering (r : Reading) : Except Fault (CompilationUnit × List SyntaxError) :=
  r.leniently compilationUnit

end Reading

end Plc
