/-
Walking over statements and expressions.

All walks are in the order of the text, a node before its parts.

* `Stmt.flattenAll` — every statement of a list, those of nested bodies included;
* `Expr.subexpressions` — an expression and all expressions inside it;
* `Expr.accesses` — every variable that an expression mentions, each with the whole
  chain of accesses that it is the root of;
* `Stmt.walk`, `Expr.walk` — the same statements and expressions, by a walk with a stack;
* `Expr.mentions` — the variables that a walk comes by, where what belongs to a chain of accesses
  that has been met is passed over.
-/
import Plc.Tree.Anatomy
import Plc.Tree.Stmt

namespace Plc

/-! ### Statements -/

mutual

/-- A statement and every statement in its bodies. -/
def Stmt.flatten : Stmt → List Stmt
  | .ifThen s (.mk bs condition body) elsifs otherwise =>
    .ifThen s (.mk bs condition body) elsifs otherwise ::
      (Stmt.flattenAll body ++ IfBranch.flattenAll elsifs ++
        match otherwise with
        | some ss => Stmt.flattenAll ss
        | none => [])
  | .caseOf s selector branches otherwise =>
    .caseOf s selector branches otherwise ::
      (CaseBranch.flattenAll branches ++
        match otherwise with
        | some ss => Stmt.flattenAll ss
        | none => [])
  | .forLoop s control start stop step body =>
    .forLoop s control start stop step body :: Stmt.flattenAll body
  | .whileLoop s condition body => .whileLoop s condition body :: Stmt.flattenAll body
  | .repeatLoop s body condition => .repeatLoop s body condition :: Stmt.flattenAll body
  | .region s title body => .region s title body :: Stmt.flattenAll body
  | s => [s]

/-- Every statement of a list, those of nested bodies included. -/
def Stmt.flattenAll : List Stmt → List Stmt
  | [] => []
  | s :: ss => s.flatten ++ Stmt.flattenAll ss

/-- Every statement of some branches. -/
def IfBranch.flattenAll : List IfBranch → List Stmt
  | [] => []
  | .mk _ _ body :: bs => Stmt.flattenAll body ++ IfBranch.flattenAll bs

/-- Every statement of some branches. -/
def CaseBranch.flattenAll : List CaseBranch → List Stmt
  | [] => []
  | .mk _ _ body :: bs => Stmt.flattenAll body ++ CaseBranch.flattenAll bs

end

@[simp] theorem Stmt.flattenAll_nil : Stmt.flattenAll [] = [] := rfl

@[simp] theorem Stmt.flattenAll_cons (s : Stmt) (ss : List Stmt) :
    Stmt.flattenAll (s :: ss) = s.flatten ++ Stmt.flattenAll ss := rfl

theorem Stmt.flatten_ifThen (s place : Span) (condition : Expr) (body : List Stmt)
    (elsifs : List IfBranch) (otherwise : Option (List Stmt)) :
    Stmt.flatten (.ifThen s (.mk place condition body) elsifs otherwise) =
      .ifThen s (.mk place condition body) elsifs otherwise ::
        (Stmt.flattenAll body ++ IfBranch.flattenAll elsifs ++
          Stmt.flattenAll (otherwise.getD [])) := by
  cases otherwise <;> rfl

theorem Stmt.flatten_caseOf (s : Span) (selector : Expr) (branches : List CaseBranch)
    (otherwise : Option (List Stmt)) :
    Stmt.flatten (.caseOf s selector branches otherwise) =
      .caseOf s selector branches otherwise ::
        (CaseBranch.flattenAll branches ++ Stmt.flattenAll (otherwise.getD [])) := by
  cases otherwise <;> rfl

/-! ### Expressions -/

mutual

/-- A variable and every expression in its accesses. -/
def Variable.subexpressions : Variable → List Expr
  | .named s name style => [.variable (.named s name style)]
  | .address s text a => [.variable (.address s text a)]
  | .member s base m => .variable (.member s base m) :: base.subexpressions
  | .element s base indices =>
    .variable (.element s base indices) :: (base.subexpressions ++ Expr.subexpressionsAll indices)
  | .deref s base => .variable (.deref s base) :: base.subexpressions

/-- An expression and every expression inside it, arguments included. -/
def Expr.subexpressions : Expr → List Expr
  | .literal s l => [.literal s l]
  | .variable v => v.subexpressions
  | .unary s op x => .unary s op x :: x.subexpressions
  | .binary s op l r => .binary s op l r :: (l.subexpressions ++ r.subexpressions)
  | .paren s x => .paren s x :: x.subexpressions
  | .call s name args => .call s name args :: Arg.subexpressionsAll args
  | .repeated s n (some x) => .repeated s n (some x) :: x.subexpressions
  | .repeated s n none => [.repeated s n none]
  | .arrayInit s es => .arrayInit s es :: Expr.subexpressionsAll es
  | .structInit s fs => .structInit s fs :: Arg.subexpressionsAll fs

/-- Every expression in an argument. -/
def Arg.subexpressions : Arg → List Expr
  | .positional _ x => x.subexpressions
  | .named _ _ x => x.subexpressions
  | .output _ _ v _ => v.subexpressions
  | .inferred _ => []

/-- Every expression in a list of expressions. -/
def Expr.subexpressionsAll : List Expr → List Expr
  | [] => []
  | x :: xs => x.subexpressions ++ Expr.subexpressionsAll xs

/-- Every expression in a list of arguments. -/
def Arg.subexpressionsAll : List Arg → List Expr
  | [] => []
  | a :: as => a.subexpressions ++ Arg.subexpressionsAll as

end

/-- Every expression in a list of statements. -/
def Stmt.expressions (stmts : List Stmt) : List Expr :=
  (Stmt.flattenAll stmts).flatMap fun s => s.roots.flatMap Expr.subexpressions

/-! ### Variables -/

/-- The variable with the name at its root; none for an access to a direct address. -/
def Variable.ownAccess (v : Variable) : List (String × Variable) :=
  match v.root? with
  | some name => [(name, v)]
  | none => []

mutual

/-- The variables mentioned in the indices of a chain of accesses. -/
def Variable.innerAccesses : Variable → List (String × Variable)
  | .named _ _ _ | .address _ _ _ => []
  | .member _ base _ => base.innerAccesses
  | .element _ base indices => base.innerAccesses ++ Expr.accessesAll indices
  | .deref _ base => base.innerAccesses

/-- Every variable that an expression mentions, with the longest chain of accesses of which it is
the root. -/
def Expr.accesses : Expr → List (String × Variable)
  | .literal _ _ => []
  | .variable v => v.ownAccess ++ v.innerAccesses
  | .unary _ _ x => x.accesses
  | .binary _ _ l r => l.accesses ++ r.accesses
  | .paren _ x => x.accesses
  | .call _ _ args => Arg.accessesAll args
  | .repeated _ _ (some x) => x.accesses
  | .repeated _ _ none => []
  | .arrayInit _ es => Expr.accessesAll es
  | .structInit _ fs => Arg.accessesAll fs

/-- Every variable that an argument mentions. -/
def Arg.accesses : Arg → List (String × Variable)
  | .positional _ x => x.accesses
  | .named _ _ x => x.accesses
  | .output _ _ v _ => v.ownAccess ++ v.innerAccesses
  | .inferred _ => []

/-- Every variable that some expressions mention. -/
def Expr.accessesAll : List Expr → List (String × Variable)
  | [] => []
  | x :: xs => x.accesses ++ Expr.accessesAll xs

/-- Every variable that some arguments mention. -/
def Arg.accessesAll : List Arg → List (String × Variable)
  | [] => []
  | a :: as => a.accesses ++ Arg.accessesAll as

end

/-! ### Statements by a walk -/

theorem Stmt.flattenAll_eq (ss : List Stmt) : Stmt.flattenAll ss = ss.flatMap Stmt.flatten := by
  induction ss with
  | nil => rfl
  | cons s ss ih => rw [Stmt.flattenAll_cons, ih, List.flatMap_cons]

theorem IfBranch.flattenAll_eq (bs : List IfBranch) :
    IfBranch.flattenAll bs = (bs.map IfBranch.body).flatten.flatMap Stmt.flatten := by
  induction bs with
  | nil => rfl
  | cons b bs ih =>
    cases b
    rw [IfBranch.flattenAll, ih, Stmt.flattenAll_eq, List.map_cons, List.flatten_cons,
      List.flatMap_append, IfBranch.body]

theorem CaseBranch.flattenAll_eq (bs : List CaseBranch) :
    CaseBranch.flattenAll bs = (bs.map CaseBranch.body).flatten.flatMap Stmt.flatten := by
  induction bs with
  | nil => rfl
  | cons b bs ih =>
    cases b
    rw [CaseBranch.flattenAll, ih, Stmt.flattenAll_eq, List.map_cons, List.flatten_cons,
      List.flatMap_append, CaseBranch.body]

/-- A statement comes before all statements in its bodies. -/
theorem Stmt.flatten_eq (s : Stmt) : s.flatten = s :: s.bodies.flatten.flatMap Stmt.flatten := by
  cases s with
  | ifThen s first elsifs otherwise =>
    cases first
    cases otherwise <;>
      simp [Stmt.flatten, Stmt.bodies, Stmt.flattenAll_eq, IfBranch.flattenAll_eq, IfBranch.body]
  | caseOf s selector branches otherwise =>
    cases otherwise <;>
      simp [Stmt.flatten, Stmt.bodies, Stmt.flattenAll_eq, CaseBranch.flattenAll_eq]
  | _ => simp [Stmt.flatten, Stmt.bodies, Stmt.flattenAll_eq]

/-- A statement is made of the statements in its bodies. -/
def Stmt.anatomy : Anatomy Stmt :=
  .ofAll (fun s => s.bodies.flatten) Stmt.flatten Stmt.flatten_eq

/-- The statements of a list and all in their bodies. -/
def Stmt.walk (ss : List Stmt) : List Stmt :=
  Stmt.anatomy.walk ss

theorem Stmt.walk_eq (ss : List Stmt) : Stmt.walk ss = Stmt.flattenAll ss := by
  rw [Stmt.flattenAll_eq]
  exact Stmt.anatomy.walk_eq Stmt.flatten_eq ss

/-! ### Expressions by a walk -/

/-- The expressions that a variable is made of. -/
def Variable.parts : Variable → List Expr
  | .named _ _ _ | .address _ _ _ => []
  | .member _ base _ | .deref _ base => [.variable base]
  | .element _ base indices => .variable base :: indices

/-- The expressions that an expression is made of. -/
def Expr.parts : Expr → List Expr
  | .literal _ _ => []
  | .variable v => v.parts
  | .unary _ _ x | .paren _ x => [x]
  | .binary _ _ l r => [l, r]
  | .call _ _ args | .structInit _ args => args.filterMap Arg.expr?
  | .repeated _ _ x => x.toList
  | .arrayInit _ es => es

theorem Expr.subexpressionsAll_eq (es : List Expr) :
    Expr.subexpressionsAll es = es.flatMap Expr.subexpressions := by
  induction es with
  | nil => rfl
  | cons e es ih => rw [Expr.subexpressionsAll, ih, List.flatMap_cons]

theorem Arg.subexpressionsAll_eq (as : List Arg) :
    Arg.subexpressionsAll as = Expr.subexpressionsAll (as.filterMap Arg.expr?) := by
  induction as with
  | nil => rfl
  | cons a as ih =>
    cases a <;> simp [subexpressionsAll, ih, subexpressions, List.filterMap_cons, expr?,
      Expr.subexpressionsAll, Expr.subexpressions]

theorem Expr.accessesAll_eq (es : List Expr) :
    Expr.accessesAll es = es.flatMap Expr.accesses := by
  induction es with
  | nil => rfl
  | cons e es ih => rw [Expr.accessesAll, ih, List.flatMap_cons]

theorem Arg.accessesAll_eq (as : List Arg) :
    Arg.accessesAll as = Expr.accessesAll (as.filterMap Arg.expr?) := by
  induction as with
  | nil => rfl
  | cons a as ih => cases a <;>
      simp [accessesAll, ih, accesses, List.filterMap_cons, expr?, Expr.accessesAll, Expr.accesses]

/-- An expression comes before all expressions inside its parts. -/
theorem Expr.subexpressions_eq (e : Expr) :
    e.subexpressions = e :: e.parts.flatMap Expr.subexpressions := by
  cases e with
  | «variable» v =>
    cases v <;>
      simp [Expr.subexpressions, Variable.subexpressions, Expr.parts, Variable.parts,
        Expr.subexpressionsAll_eq]
  | repeated s n x => cases x <;> simp [Expr.subexpressions, Expr.parts]
  | _ =>
    simp [Expr.subexpressions, Expr.parts, Expr.subexpressionsAll_eq, Arg.subexpressionsAll_eq]

/-- An expression is made of its parts. -/
def Expr.anatomy : Anatomy Expr :=
  .ofAll Expr.parts Expr.subexpressions Expr.subexpressions_eq

/-- An expression and all expressions inside it. -/
def Expr.walk (e : Expr) : List Expr :=
  Expr.anatomy.walk [e]

theorem Expr.walk_eq (e : Expr) : e.walk = e.subexpressions := by
  have all := Expr.anatomy.walk_eq Expr.subexpressions_eq [e]
  rwa [List.flatMap_singleton] at all

/-- Every expression in the statements of a list and in their bodies. -/
def Stmt.walkExpressions (ss : List Stmt) : List Expr :=
  (Stmt.walk ss).flatMap fun s => s.roots.flatMap Expr.walk

theorem Stmt.walkExpressions_eq (ss : List Stmt) :
    Stmt.walkExpressions ss = Stmt.expressions ss := by
  rw [Stmt.walkExpressions, Stmt.walk_eq, Stmt.expressions, funext Expr.walk_eq]

/-! ### Variables by a walk -/

/-- The places of the accesses of a chain and of its root.  The base of an access is the first of its
parts. -/
def Variable.chainPlaces (p : Anatomy.Place) : Variable → List Anatomy.Place
  | .named _ _ _ | .address _ _ _ => [p]
  | .member _ base _ | .element _ base _ | .deref _ base => p :: base.chainPlaces (0 :: p)

/-- What a walk has come by. -/
structure Expr.Met where
  /-- The places of what belongs to a chain of accesses that has been met. -/
  covered : List Anatomy.Place := []
  /-- The names at the roots of the chains, each with its whole chain. -/
  found : List (String × Variable) := []

/-- An expression at a place is met: a chain of accesses covers all that belongs to it. -/
def Expr.Met.meet (m : Expr.Met) (x : Anatomy.Place × Expr) : Expr.Met :=
  if x.1 ∈ m.covered then m
  else
    match x.2 with
    | .variable (.named s name style) =>
      { m with found := m.found ++ [(name, .named s name style)] }
    | .variable (.address _ _ _) => m
    | .variable v =>
      { covered := m.covered ++ v.chainPlaces x.1, found := m.found ++ v.ownAccess }
    | _ => m

/-- The variables that an expression mentions, each with the whole chain of accesses that it is the
root of. -/
def Expr.mentions (e : Expr) : List (String × Variable) :=
  ((Expr.anatomy.placed.walk [([], e)]).foldl Expr.Met.meet {}).found

end Plc
