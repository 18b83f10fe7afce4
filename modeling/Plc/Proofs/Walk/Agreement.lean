/-
Walks over some parts of a tree and over all of it.

The walk over statements and the walk over expressions know the parts of each construct by hand; the
walk over all nodes goes from a node to its children.  They come by the same statements and
expressions.

* `stmts_stmt` — the statements among all nodes from a statement on down;
* `exprs_expr`, `perm_exprs_stmt` — the expressions among all nodes from an expression or from a
  statement on down;
* `walks_agree` — both kinds of walk come by the same statements and expressions.
-/
import Mathlib.Data.List.Perm.Basic
import Plc.Tree.Node
import Plc.Tree.Walk

namespace Plc.Node

/-- The statement, if the node is one. -/
def stmt? : Node → Option Stmt
  | stmt s => some s
  | _ => none

/-- The expression, if the node is one. -/
def expr? : Node → Option Expr
  | expr e => some e
  | _ => none

/-- The statements among the nodes from a node on down. -/
def stmts (n : Node) : List Stmt :=
  n.nodes.filterMap stmt?

/-- The expressions among the nodes from a node on down. -/
def exprs (n : Node) : List Expr :=
  n.nodes.filterMap expr?

theorem stmts_eq (n : Node) : n.stmts = n.stmt?.toList ++ n.children.flatMap stmts := by
  rw [stmts, nodes_eq, ← List.singleton_append, List.filterMap_append, List.filterMap_flatMap]
  cases n <;> rfl

theorem exprs_eq (n : Node) : n.exprs = n.expr?.toList ++ n.children.flatMap exprs := by
  rw [exprs, nodes_eq, ← List.singleton_append, List.filterMap_append, List.filterMap_flatMap]
  cases n <;> rfl

/-! ### Expressions -/

section

variable {β : Type} {f : Node → List β}

/-- What is made of an argument is made of its expression. -/
theorem flatMap_ofArg (a : Arg) : (ofArg a).flatMap f = a.expr?.toList.flatMap fun e => f (expr e) := by
  cases a <;> simp [ofArg, Arg.expr?]

theorem flatMap_args (args : ∀ a, f (arg a) = (ofArg a).flatMap f) (as : List Arg) :
    (as.map arg).flatMap f = (as.filterMap Arg.expr?).flatMap fun e => f (expr e) := by
  induction as with
  | nil => rfl
  | cons a as ih =>
    rw [List.map_cons, List.flatMap_cons, ih, args, flatMap_ofArg]
    cases a <;> simp [List.filterMap_cons, Arg.expr?]

/-- What is made of the children of an expression is made of its parts. -/
theorem flatMap_ofExpr (args : ∀ a, f (arg a) = (ofArg a).flatMap f) (e : Expr) :
    (ofExpr e).flatMap f = e.parts.flatMap fun part => f (expr part) := by
  cases e with
  | «variable» v => cases v <;> simp [ofExpr, ofVariable, Expr.parts, Variable.parts, List.flatMap_map]
  | call | structInit => exact flatMap_args args _
  | repeated s n x => cases x <;> simp [ofExpr, Expr.parts]
  | _ => simp [ofExpr, Expr.parts, List.flatMap_map]

end

/-- There is no statement in an expression. -/
@[simp] theorem stmts_expr (e : Expr) : (expr e).stmts = [] := by
  refine Expr.anatomy.induction (P := fun e => (expr e).stmts = []) (fun e parts => ?_) e
  rw [stmts_eq]
  refine (flatMap_ofExpr (fun a => stmts_eq (arg a)) e).trans ?_
  exact List.flatMap_eq_nil_iff.2 parts

@[simp] theorem stmts_arg (a : Arg) : (arg a).stmts = [] := by
  rw [stmts_eq]
  refine (flatMap_ofArg a).trans ?_
  exact List.flatMap_eq_nil_iff.2 fun e _ => stmts_expr e

/-- The expressions from an expression on down, in the order of both walks. -/
@[simp] theorem exprs_expr (e : Expr) : (expr e).exprs = e.subexpressions := by
  refine Expr.anatomy.induction (P := fun e => (expr e).exprs = e.subexpressions)
    (fun e parts => ?_) e
  rw [exprs_eq, e.subexpressions_eq]
  refine congrArg (e :: ·) ((flatMap_ofExpr (fun a => exprs_eq (arg a)) e).trans ?_)
  exact congrArg List.flatten (List.map_congr_left parts)

theorem exprs_args (as : List Arg) :
    (as.map arg).flatMap exprs = (as.filterMap Arg.expr?).flatMap Expr.subexpressions := by
  rw [flatMap_args fun a => exprs_eq (arg a)]
  simp only [exprs_expr]

/-! ### Statements -/

theorem flatMap_bodies {β γ : Type} (body : γ → List Stmt) (f : Stmt → List β) (bs : List γ) :
    (bs.map body).flatten.flatMap f = bs.flatMap fun b => (body b).flatMap f := by
  induction bs with
  | nil => rfl
  | cons b bs ih =>
    rw [List.map_cons, List.flatten_cons, List.flatMap_append, ih, List.flatMap_cons]

@[simp] theorem stmts_selector (x : CaseSelector) : (selector x).stmts = [] := by
  rw [stmts_eq]
  cases x <;> simp [stmt?, children]

@[simp] theorem exprs_selector (x : CaseSelector) :
    (selector x).exprs = x.roots.flatMap Expr.subexpressions := by
  rw [exprs_eq]
  cases x <;> simp [expr?, children, CaseSelector.roots]

@[simp] theorem stmts_ifBranch (b : IfBranch) :
    (ifBranch b).stmts = b.body.flatMap fun s => (stmt s).stmts := by
  rw [stmts_eq]
  cases b
  simp [stmt?, children, IfBranch.body, List.flatMap_map]

@[simp] theorem stmts_caseBranch (b : CaseBranch) :
    (caseBranch b).stmts = b.body.flatMap fun s => (stmt s).stmts := by
  rw [stmts_eq]
  cases b
  simp [stmt?, children, CaseBranch.body, List.flatMap_map]

/-- The statements from a statement on down, in the order of both walks. -/
theorem stmts_stmt (s : Stmt) : (stmt s).stmts = s.flatten := by
  refine Stmt.anatomy.induction (P := fun s => (stmt s).stmts = s.flatten) (fun s bodies => ?_) s
  have below : (ofStmt s).flatMap stmts = s.bodies.flatten.flatMap fun t => (stmt t).stmts := by
    cases s with
    | ifThen s first elsifs otherwise =>
      cases otherwise <;>
        simp [ofStmt, Stmt.bodies, List.flatMap_map, flatMap_bodies]
    | caseOf s x branches otherwise =>
      cases otherwise <;> simp [ofStmt, Stmt.bodies, List.flatMap_map, flatMap_bodies]
    | _ => simp [ofStmt, Stmt.bodies, List.flatMap_map]
  rw [stmts_eq, s.flatten_eq]
  exact congrArg (s :: ·) (below.trans (congrArg List.flatten (List.map_congr_left bodies)))

theorem exprs_ifBranch (b : IfBranch) :
    (ifBranch b).exprs = b.condition.subexpressions ++ b.body.flatMap fun s => (stmt s).exprs := by
  rw [exprs_eq]
  cases b
  simp [expr?, children, IfBranch.condition, IfBranch.body, List.flatMap_map]

theorem exprs_caseBranch (b : CaseBranch) : (caseBranch b).exprs =
    (b.selectors.flatMap CaseSelector.roots).flatMap Expr.subexpressions ++
      b.body.flatMap fun s => (stmt s).exprs := by
  rw [exprs_eq]
  cases b
  simp [expr?, children, CaseBranch.selectors, CaseBranch.body, List.flatMap_map, List.flatMap_assoc]

/-- A statement owns its expressions, whatever stands between them. -/
theorem perm_exprs_ofStmt (s : Stmt) : ((ofStmt s).flatMap exprs).Perm
    (s.roots.flatMap Expr.subexpressions ++
      s.bodies.flatten.flatMap fun t => (stmt t).exprs) := by
  cases s with
  | ifThen s first elsifs otherwise =>
    -- A walk goes from branch to branch, each with its condition and its body. The other order has
    -- all conditions before all bodies.
    have apart := List.flatMap_append_perm (first :: elsifs)
      (fun b => b.condition.subexpressions) fun b => b.body.flatMap fun t => (stmt t).exprs
    have all := (apart.append_right ((otherwise.getD []).flatMap fun t => (stmt t).exprs)).symm
    cases otherwise <;>
      simpa [ofStmt, Stmt.roots, Stmt.bodies, List.flatMap_map, exprs_ifBranch, flatMap_bodies]
        using all
  | caseOf s x branches otherwise =>
    have apart := List.flatMap_append_perm branches
      (fun b => (b.selectors.flatMap CaseSelector.roots).flatMap Expr.subexpressions)
      fun b => b.body.flatMap fun t => (stmt t).exprs
    have all := ((apart.append_right ((otherwise.getD []).flatMap fun t => (stmt t).exprs)).append_left
      x.subexpressions).symm
    cases otherwise <;>
      simpa [ofStmt, Stmt.roots, Stmt.bodies, List.flatMap_map, exprs_caseBranch, flatMap_bodies,
        List.flatMap_assoc] using all
  | repeatLoop s body condition =>
    simpa [ofStmt, Stmt.roots, Stmt.bodies, List.flatMap_map] using List.perm_append_comm
  | invoke s callee args =>
    simp [ofStmt, Stmt.roots, Stmt.bodies, exprs_args]
  | _ => simp [ofStmt, Stmt.roots, Stmt.bodies, List.flatMap_map]

/-- The expressions from a statement on down are those that its statements own, in some order. -/
theorem perm_exprs_stmt (s : Stmt) :
    (stmt s).exprs.Perm (s.flatten.flatMap fun t => t.roots.flatMap Expr.subexpressions) := by
  refine Stmt.anatomy.induction (P := fun s => (stmt s).exprs.Perm
    (s.flatten.flatMap fun t => t.roots.flatMap Expr.subexpressions)) (fun s bodies => ?_) s
  rw [exprs_eq, s.flatten_eq, List.flatMap_cons, List.flatMap_assoc]
  exact (perm_exprs_ofStmt s).trans ((List.Perm.flatMap_left _ bodies).append_left _)

/-- The walk over statements comes by the statements that the walk over all nodes comes by, in the same
order; the walk over expressions comes by its expressions, each as often. -/
theorem walks_agree (ss : List Stmt) :
    Stmt.walk ss = (ss.flatMap fun s => (stmt s).walk).filterMap stmt? ∧
      (Stmt.walkExpressions ss).Perm ((ss.flatMap fun s => (stmt s).walk).filterMap expr?) := by
  rw [List.filterMap_flatMap, List.filterMap_flatMap]
  simp only [walk_eq]
  constructor
  · rw [Stmt.walk_eq, Stmt.flattenAll_eq]
    exact congrArg List.flatten (List.map_congr_left fun s _ => (stmts_stmt s).symm)
  · rw [Stmt.walkExpressions_eq, Stmt.expressions, Stmt.flattenAll_eq, List.flatMap_assoc]
    exact List.Perm.flatMap_left _ fun s _ => (perm_exprs_stmt s).symm

end Plc.Node
