/-
Findings about a text.

A `Finding` says what was found and with which names, types or numbers; a `Diagnostic`
adds where it was found and how much it matters.

* `Finding.message` — the finding in words;
* `Severity.graded` — how much it matters that a measure exceeds a bound;
* `Diagnostic.sort` — the gravest first, those of equal gravity in the order of the text.
-/
import Plc.Span

namespace Plc

/-- How much a finding matters. -/
inductive Severity where
  | hint
  | warning
  | error
  deriving DecidableEq

namespace Severity

/-- The severity as a number; a graver one is greater. -/
def rank : Severity → Nat
  | .hint => 0
  | .warning => 1
  | .error => 2

/-- The severity as it is written. -/
def label : Severity → String
  | .hint => "hint"
  | .warning => "warning"
  | .error => "error"

/-- The severity of a measure beyond a bound: up to one and a half times the bound is a hint, up
to twice the bound a warning. -/
def graded (measured bound : Int) : Severity :=
  if measured * 2 ≤ bound * 3 then .hint
  else if measured ≤ bound * 2 then .warning
  else .error

end Severity

/-- What can be found. -/
inductive Finding where
  | undefinedIdentifier (name : String)
  | duplicateDefinition (name : String)
  | unusedVariable (name : String)
  | uninitializedVariable (name : String)
  | assignmentToConstant (name : String)
  | assignmentToInput (name : String)
  | shadowedVariable (name : String)
  | typeMismatch (expected found : String)
  | incompatibleTypes (left right operator : String)
  | wrongArgumentCount (expected found : Int)
  | wrongArgumentType (param expected found : String)
  | invalidOperator (operator type : String)
  | nonIntegerIndex
  | dimensionMismatch (expected found : Int)
  | emptyBlock (block : String)
  | deepNesting (depth bound : Int)
  | longBody (statements bound : Int)
  | complexCondition (operators bound : Int)
  | magicNumber (value : String)
  | redundantCondition (always : Bool)
  | duplicateCode (description : String)
  | deadCode (reason : String)
  | emptyCaseBranch
  | missingCaseElse
  | possibleAssignment
  deriving DecidableEq

namespace Finding

/-- The name of the rule that makes the finding. -/
def rule : Finding → String
  | .undefinedIdentifier _ => "UNDEFINED_IDENTIFIER"
  | .duplicateDefinition _ => "DUPLICATE_DEFINITION"
  | .unusedVariable _ => "UNUSED_VARIABLE"
  | .uninitializedVariable _ => "UNINITIALIZED_VARIABLE"
  | .assignmentToConstant _ => "ASSIGNMENT_TO_CONSTANT"
  | .assignmentToInput _ => "ASSIGNMENT_TO_INPUT"
  | .shadowedVariable _ => "SHADOWED_VARIABLE"
  | .typeMismatch _ _ => "TYPE_MISMATCH"
  | .incompatibleTypes _ _ _ => "INCOMPATIBLE_TYPES"
  | .wrongArgumentCount _ _ => "WRONG_ARGUMENT_COUNT"
  | .wrongArgumentType _ _ _ => "WRONG_ARGUMENT_TYPE"
  | .invalidOperator _ _ => "INVALID_OPERATOR"
  | .nonIntegerIndex => "NON_INTEGER_ARRAY_INDEX"
  | .dimensionMismatch _ _ => "ARRAY_DIMENSION_MISMATCH"
  | .emptyBlock _ => "EMPTY_BLOCK"
  | .deepNesting _ _ => "DEEP_NESTING"
  | .longBody _ _ => "LONG_FUNCTION"
  | .complexCondition _ _ => "COMPLEX_CONDITION"
  | .magicNumber _ => "MAGIC_NUMBER"
  | .redundantCondition _ => "REDUNDANT_CONDITION"
  | .duplicateCode _ => "DUPLICATE_CODE"
  | .deadCode _ => "DEAD_CODE"
  | .emptyCaseBranch => "EMPTY_CASE_BRANCH"
  | .missingCaseElse => "MISSING_CASE_ELSE"
  | .possibleAssignment => "POSSIBLE_ASSIGNMENT_IN_CONDITION"

/-- A name, number or truth value in a finding. -/
inductive Part where
  | text (s : String)
  | number (n : Int)
  | flag (b : Bool)

/-- What a finding holds, each part under its own key. -/
def parts : Finding → List (String × Part)
  | .undefinedIdentifier n | .duplicateDefinition n | .unusedVariable n | .uninitializedVariable n
  | .assignmentToConstant n | .assignmentToInput n | .shadowedVariable n => [("name", .text n)]
  | .typeMismatch e f => [("expected", .text e), ("found", .text f)]
  | .incompatibleTypes l r op => [("left", .text l), ("right", .text r), ("op", .text op)]
  | .wrongArgumentCount e f | .dimensionMismatch e f =>
    [("expected", .number e), ("found", .number f)]
  | .wrongArgumentType p e f => [("param", .text p), ("expected", .text e), ("found", .text f)]
  | .invalidOperator op t => [("op", .text op), ("operand_type", .text t)]
  | .emptyBlock b => [("block_type", .text b)]
  | .deepNesting n b => [("depth", .number n), ("max_recommended", .number b)]
  | .longBody n b => [("lines", .number n), ("max_recommended", .number b)]
  | .complexCondition n b => [("complexity", .number n), ("max_recommended", .number b)]
  | .magicNumber v => [("value", .text v)]
  | .redundantCondition b => [("always", .flag b)]
  | .duplicateCode d => [("description", .text d)]
  | .deadCode r => [("reason", .text r)]
  | .nonIntegerIndex | .emptyCaseBranch | .missingCaseElse | .possibleAssignment => []

/-- The text in single quotes. -/
def quote (text : String) : String :=
  "'" ++ text ++ "'"

/-- The finding in words. -/
def message : Finding → String
  | .undefinedIdentifier n => "undefined identifier " ++ quote n
  | .duplicateDefinition n => "duplicate definition of " ++ quote n
  | .unusedVariable n => "unused variable " ++ quote n
  | .uninitializedVariable n => "variable " ++ quote n ++ " may be uninitialized"
  | .assignmentToConstant n => "cannot assign to constant " ++ quote n
  | .assignmentToInput n => "cannot assign to input parameter " ++ quote n
  | .shadowedVariable n => "variable " ++ quote n ++ " shadows an outer variable"
  | .typeMismatch e f => "type mismatch: expected " ++ quote e ++ ", found " ++ quote f
  | .incompatibleTypes l r op =>
    "incompatible types " ++ quote l ++ " and " ++ quote r ++ " for operator " ++ quote op
  | .wrongArgumentCount e f =>
    "wrong number of arguments: expected " ++ toString e ++ ", found " ++ toString f
  | .wrongArgumentType p e f =>
    "wrong type for parameter " ++ quote p ++ ": expected " ++ quote e ++ ", found " ++ quote f
  | .invalidOperator op t => "operator " ++ quote op ++ " cannot be applied to type " ++ quote t
  | .nonIntegerIndex => "array index must be an integer type"
  | .dimensionMismatch e f =>
    "array dimension mismatch: expected " ++ toString e ++ " indices, found " ++ toString f
  | .emptyBlock b => "empty " ++ b ++ " block"
  | .deepNesting n b =>
    "deeply nested code (depth " ++ toString n ++ ", recommended max " ++ toString b ++ ")"
  | .longBody n b =>
    "function is too long (" ++ toString n ++ " statements, recommended max " ++ toString b ++ ")"
  | .complexCondition n b =>
    "complex condition (complexity " ++ toString n ++ ", recommended max " ++ toString b ++ ")"
  | .magicNumber v => "magic number " ++ quote v ++ " should be a named constant"
  | .redundantCondition b => "condition is always " ++ (if b then "true" else "false")
  | .duplicateCode d => "duplicate code: " ++ d
  | .deadCode r => "unreachable code: " ++ r
  | .emptyCaseBranch => "empty CASE branch"
  | .missingCaseElse => "CASE statement has no ELSE clause"
  | .possibleAssignment => "possible assignment in condition (did you mean ':=' instead of '='?)"

end Finding

/-- A finding at a place. -/
structure Diagnostic where
  finding : Finding
  span : Span
  severity : Severity
  /-- The place of the earlier definition that the finding is about. -/
  related : Option Span := none
  deriving DecidableEq

namespace Diagnostic

/-- The severity and the finding in words. -/
def header (d : Diagnostic) : String :=
  d.severity.label ++ ": " ++ d.finding.message

/-- The diagnostic in one line. -/
def render (d : Diagnostic) : String :=
  d.header ++ " at " ++ d.span.render

/-- The diagnostic with the line of the source that it points at. -/
def excerpt (source : List Char) (d : Diagnostic) : String :=
  d.span.excerpt source d.header

/-- A graver diagnostic comes before a lesser one, and one of equal severity before those that
begin further on. -/
def comesBefore (a b : Diagnostic) : Bool :=
  b.severity.rank < a.severity.rank ||
    a.severity.rank == b.severity.rank && a.span.start ≤ b.span.start

/-- The gravest first, those of equal severity in the order of the text; ties keep their
order. -/
def sort (ds : List Diagnostic) : List Diagnostic :=
  ds.mergeSort comesBefore

theorem comesBefore_total (a b : Diagnostic) : (comesBefore a b || comesBefore b a) = true := by
  simp only [comesBefore, Bool.or_eq_true, Bool.and_eq_true, decide_eq_true_eq, beq_iff_eq]
  omega

theorem comesBefore_trans (a b c : Diagnostic) (hab : comesBefore a b = true)
    (hbc : comesBefore b c = true) : comesBefore a c = true := by
  simp only [comesBefore, Bool.or_eq_true, Bool.and_eq_true, decide_eq_true_eq, beq_iff_eq] at *
  omega

/-- Sorting loses and invents nothing. -/
theorem sort_perm (ds : List Diagnostic) : (sort ds).Perm ds :=
  ds.mergeSort_perm comesBefore

/-- What comes later in the sorted list never has to come first. -/
theorem sort_pairwise (ds : List Diagnostic) :
    (sort ds).Pairwise fun a b => comesBefore a b = true :=
  List.pairwise_mergeSort comesBefore_trans comesBefore_total ds

end Diagnostic

end Plc
