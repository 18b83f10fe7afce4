/-
Trees without places.

The shape of a tree is the tree with every span forgotten, and with every literal as a
given view of it; what is printed for a tree depends on its shape only.

* `Expr.shape`, `Stmt.shape` — the tree at no place;
* `Literal.untold` — a literal without the text that a type in front gives it;
* `Stmt.textAll_shape` — a tree and its shape are printed alike.
-/
import Plc.Printer

namespace Plc

/-- The literal, without its text when a type stands in front. -/
def Literal.untold (l : Literal) : Literal :=
  if l.typeName.isSome then { l with text := "" } else l

mutual

/-- The variable at no place. -/
def Variable.shape (view : Literal → Literal) : Variable → Variable
  | .named _ n style => .named .zero n style
  | .address _ t a => .address .zero t a
  | .member _ b m => .member .zero (b.shape view) m
  | .element _ b is => .element .zero (b.shape view) (Expr.shapeAll view is)
  | .deref _ b => .deref .zero (b.shape view)

/-- The expression at no place. -/
def Expr.shape (view : Literal → Literal) : Expr → Expr
  | .literal _ l => .literal .zero (view l)
  | .variable v => .variable (v.shape view)
  | .unary _ op x => .unary .zero op (x.shape view)
  | .binary _ op l r => .binary .zero op (l.shape view) (r.shape view)
  | .paren _ x => .paren .zero (x.shape view)
  | .call _ name args => .call .zero name (Arg.shapeAll view args)
  | .repeated _ n (some x) => .repeated .zero n (some (x.shape view))
  | .repeated _ n none => .repeated .zero n none
  | .arrayInit _ es => .arrayInit .zero (Expr.shapeAll view es)
  | .structInit _ fs => .structInit .zero (Arg.shapeAll view fs)

/-- The argument at no place. -/
def Arg.shape (view : Literal → Literal) : Arg → Arg
  | .positional _ x => .positional .zero (x.shape view)
  | .named _ n x => .named .zero n (x.shape view)
  | .output _ n v negated => .output .zero n (v.shape view) negated
  | .inferred _ => .inferred .zero

/-- Each expression of a list. -/
def Expr.shapeAll (view : Literal → Literal) : List Expr → List Expr
  | [] => []
  | x :: xs => x.shape view :: Expr.shapeAll view xs

/-- Each argument of a list. -/
def Arg.shapeAll (view : Literal → Literal) : List Arg → List Arg
  | [] => []
  | x :: xs => x.shape view :: Arg.shapeAll view xs

end

/-- The label at no place. -/
def CaseSelector.shape (view : Literal → Literal) : CaseSelector → CaseSelector
  | .value _ x => .value .zero (x.shape view)
  | .range _ low high => .range .zero (low.shape view) (high.shape view)

mutual

/-- The statement at no place. -/
def Stmt.shape (view : Literal → Literal) : Stmt → Stmt
  | .assignment _ target op value => .assignment .zero (target.shape view) op (value.shape view)
  | .ifThen _ first elsifs none =>
    .ifThen .zero (first.shape view) (IfBranch.shapeAll view elsifs) none
  | .ifThen _ first elsifs (some ss) =>
    .ifThen .zero (first.shape view) (IfBranch.shapeAll view elsifs) (some (Stmt.shapeAll view ss))
  | .caseOf _ selector branches none =>
    .caseOf .zero (selector.shape view) (CaseBranch.shapeAll view branches) none
  | .caseOf _ selector branches (some ss) =>
    .caseOf .zero (selector.shape view) (CaseBranch.shapeAll view branches)
      (some (Stmt.shapeAll view ss))
  | .forLoop _ control start stop step body =>
    .forLoop .zero control (start.shape view) (stop.shape view) (step.map (Expr.shape view))
      (Stmt.shapeAll view body)
  | .whileLoop _ condition body => .whileLoop .zero (condition.shape view) (Stmt.shapeAll view body)
  | .repeatLoop _ body condition =>
    .repeatLoop .zero (Stmt.shapeAll view body) (condition.shape view)
  | .exitLoop _ => .exitLoop .zero
  | .nextPass _ => .nextPass .zero
  | .leave _ value => .leave .zero (value.map (Expr.shape view))
  | .call _ _ name args => .call .zero .zero name (Arg.shapeAll view args)
  | .invoke _ callee args => .invoke .zero (callee.shape view) (Arg.shapeAll view args)
  | .empty _ => .empty .zero
  | .goto _ label => .goto .zero label
  | .label _ name => .label .zero name
  | .region _ title body => .region .zero title (Stmt.shapeAll view body)

/-- The branch at no place. -/
def IfBranch.shape (view : Literal → Literal) : IfBranch → IfBranch
  | .mk _ condition body => .mk .zero (condition.shape view) (Stmt.shapeAll view body)

/-- The branch at no place. -/
def CaseBranch.shape (view : Literal → Literal) : CaseBranch → CaseBranch
  | .mk _ selectors body =>
    .mk .zero (selectors.map (CaseSelector.shape view)) (Stmt.shapeAll view body)

/-- Each statement of a list. -/
def Stmt.shapeAll (view : Literal → Literal) : List Stmt → List Stmt
  | [] => []
  | s :: ss => s.shape view :: Stmt.shapeAll view ss

/-- Each branch of a list. -/
def IfBranch.shapeAll (view : Literal → Literal) : List IfBranch → List IfBranch
  | [] => []
  | b :: bs => b.shape view :: IfBranch.shapeAll view bs

/-- Each branch of a list. -/
def CaseBranch.shapeAll (view : Literal → Literal) : List CaseBranch → List CaseBranch
  | [] => []
  | b :: bs => b.shape view :: CaseBranch.shapeAll view bs

end

section Lists

variable (view : Literal → Literal)

theorem Expr.shapeAll_eq (es : List Expr) : Expr.shapeAll view es = es.map (Expr.shape view) := by
  induction es with
  | nil => rfl
  | cons e es ih => rw [shapeAll, ih, List.map_cons]

theorem Arg.shapeAll_eq (as : List Arg) : Arg.shapeAll view as = as.map (Arg.shape view) := by
  induction as with
  | nil => rfl
  | cons a as ih => rw [shapeAll, ih, List.map_cons]

theorem Stmt.shapeAll_eq (ss : List Stmt) : Stmt.shapeAll view ss = ss.map (Stmt.shape view) := by
  induction ss with
  | nil => rfl
  | cons s ss ih => rw [shapeAll, ih, List.map_cons]

theorem IfBranch.shapeAll_eq (bs : List IfBranch) :
    IfBranch.shapeAll view bs = bs.map (IfBranch.shape view) := by
  induction bs with
  | nil => rfl
  | cons b bs ih => rw [shapeAll, ih, List.map_cons]

theorem CaseBranch.shapeAll_eq (bs : List CaseBranch) :
    CaseBranch.shapeAll view bs = bs.map (CaseBranch.shape view) := by
  induction bs with
  | nil => rfl
  | cons b bs ih => rw [shapeAll, ih, List.map_cons]

theorem Stmt.shape_ifThen (s : Span) (first : IfBranch) (elsifs : List IfBranch)
    (otherwise : Option (List Stmt)) : (Stmt.ifThen s first elsifs otherwise).shape view =
      .ifThen .zero (first.shape view) (elsifs.map (IfBranch.shape view))
        (otherwise.map (List.map (Stmt.shape view))) := by
  cases otherwise <;> simp [shape, IfBranch.shapeAll_eq, Stmt.shapeAll_eq]

theorem Stmt.shape_caseOf (s : Span) (selector : Expr) (branches : List CaseBranch)
    (otherwise : Option (List Stmt)) : (Stmt.caseOf s selector branches otherwise).shape view =
      .caseOf .zero (selector.shape view) (branches.map (CaseBranch.shape view))
        (otherwise.map (List.map (Stmt.shape view))) := by
  cases otherwise <;> simp [shape, CaseBranch.shapeAll_eq, Stmt.shapeAll_eq]

@[simp] theorem Variable.span_shape (v : Variable) : (v.shape view).span = .zero := by
  cases v <;> rfl

@[simp] theorem Expr.span_shape (e : Expr) : (e.shape view).span = .zero := by
  cases e with
  | «variable» v => exact Variable.span_shape view v
  | repeated _ _ x => cases x <;> rfl
  | _ => rfl

@[simp] theorem Stmt.span_shape (s : Stmt) : (s.shape view).span = .zero := by
  cases s with
  | ifThen _ _ _ o | caseOf _ _ _ o => cases o <;> rfl
  | _ => rfl

theorem Variable.path?_shape : ∀ v : Variable, (v.shape view).path? = v.path?
  | .named _ _ _ => rfl
  | .address _ _ _ => rfl
  | .member _ b m => by rw [shape, path?, path?, path?_shape b]
  | .element _ _ _ => rfl
  | .deref _ _ => rfl

theorem Variable.root?_shape : ∀ v : Variable, (v.shape view).root? = v.root?
  | .named _ _ _ => rfl
  | .address _ _ _ => rfl
  | .member _ b _ => root?_shape b
  | .element _ b _ => root?_shape b
  | .deref _ b => root?_shape b

variable {view} in
/-- Variables of one shape have the same dotted name. -/
theorem Variable.path?_of_shape {v w : Variable} (h : v.shape view = w.shape view) :
    w.path? = v.path? := by
  rw [← v.path?_shape view, h, path?_shape]

variable {view} in
/-- Variables of one shape begin with the same name. -/
theorem Variable.root?_of_shape {v w : Variable} (h : v.shape view = w.shape view) :
    w.root? = v.root? := by
  rw [← v.root?_shape view, h, root?_shape]

theorem Variable.shape_withSpan (s : Span) (v : Variable) :
    (v.withSpan s).shape view = v.shape view := by
  cases v <;> rfl

/-- An expression has the same shape at every place. -/
theorem Expr.shape_withSpan (s : Span) (e : Expr) : (e.withSpan s).shape view = e.shape view := by
  cases e with
  | «variable» v => exact congrArg Expr.variable (Variable.shape_withSpan view s v)
  | repeated _ _ x => cases x <;> rfl
  | _ => rfl

end Lists

/-! ### Printing -/

@[simp] theorem Expr.isNot_shape (view : Literal → Literal) (e : Expr) :
    (e.shape view).isNot = e.isNot := by
  cases e with
  | unary _ op _ => cases op <;> rfl
  | repeated _ _ x => cases x <;> rfl
  | _ => rfl

@[simp] theorem Expr.isUnary_shape (view : Literal → Literal) (e : Expr) :
    (e.shape view).isUnary = e.isUnary := by
  cases e with
  | repeated _ _ x => cases x <;> rfl
  | _ => rfl

mutual

theorem Variable.render_shape : ∀ v : Variable, (v.shape id).render = v.render
  | .named _ _ _ => rfl
  | .address _ _ _ => rfl
  | .member _ b _ => by simp only [Variable.shape, Variable.render, Variable.render_shape b]
  | .element _ b is => by
    simp only [Variable.shape, Variable.render, Variable.render_shape b, Expr.renderAll_shape is]
  | .deref _ b => by simp only [Variable.shape, Variable.render, Variable.render_shape b]

theorem Expr.render_shape : ∀ (e : Expr) (outer : Nat), (e.shape id).render outer = e.render outer
  | .literal _ _, _ => rfl
  | .variable v, _ => by simp only [Expr.shape, Expr.render, Variable.render_shape v]
  | .unary _ .not x, _ => by simp only [Expr.shape, Expr.render, Expr.render_shape x]
  | .unary _ .neg x, _ => by
    simp only [Expr.shape, Expr.render, Expr.render_shape x, Expr.isUnary_shape]
  | .binary _ op l r, _ => by
    simp only [Expr.shape, Expr.render, Expr.render_shape l, Expr.render_shape r, Expr.isNot_shape]
  | .paren _ x, _ => by simp only [Expr.shape, Expr.render, Expr.render_shape x]
  | .call _ _ args, _ => by simp only [Expr.shape, Expr.render, Arg.renderAll_shape args]
  | .repeated _ _ (some x), _ => by simp only [Expr.shape, Expr.render, Expr.render_shape x]
  | .repeated _ _ none, _ => rfl
  | .arrayInit _ es, _ => by simp only [Expr.shape, Expr.render, Expr.renderAll_shape es]
  | .structInit _ fs, _ => by simp only [Expr.shape, Expr.render, Arg.renderAll_shape fs]

theorem Arg.render_shape : ∀ a : Arg, (a.shape id).render = a.render
  | .positional _ x => by simp only [Arg.shape, Arg.render, Expr.render_shape x]
  | .named _ _ x => by simp only [Arg.shape, Arg.render, Expr.render_shape x]
  | .output _ _ v _ => by simp only [Arg.shape, Arg.render, Variable.render_shape v]
  | .inferred _ => rfl

theorem Expr.renderAll_shape : ∀ es : List Expr, Expr.renderAll (Expr.shapeAll id es) =
    Expr.renderAll es
  | [] => rfl
  | e :: es => by
    simp only [Expr.shapeAll, Expr.renderAll, Expr.render_shape e, Expr.renderAll_shape es]

theorem Arg.renderAll_shape : ∀ as : List Arg, Arg.renderAll (Arg.shapeAll id as) =
    Arg.renderAll as
  | [] => rfl
  | a :: as => by
    simp only [Arg.shapeAll, Arg.renderAll, Arg.render_shape a, Arg.renderAll_shape as]

end

@[simp] theorem Expr.text_shape (e : Expr) : (e.shape id).text = e.text :=
  e.render_shape 0

@[simp] theorem CaseSelector.text_shape (s : CaseSelector) : (s.shape id).text = s.text := by
  cases s <;> simp [shape, text]

mutual

theorem Stmt.lines_shape (depth : Nat) : ∀ s : Stmt, (s.shape id).lines depth = s.lines depth
  -- What the shape leaves out are places, and nothing printed depends on them.
  | .assignment _ target _ value => by
    simp only [Stmt.shape, Stmt.lines, target.render_shape, value.text_shape]
  | .ifThen _ (.mk _ condition body) elsifs none => by
    simp only [Stmt.shape, IfBranch.shape, Stmt.lines, condition.text_shape,
      Stmt.linesAll_shape (depth + 1) body, IfBranch.linesAll_shape depth elsifs]
  | .ifThen _ (.mk _ condition body) elsifs (some ss) => by
    simp only [Stmt.shape, IfBranch.shape, Stmt.lines, condition.text_shape,
      Stmt.linesAll_shape (depth + 1) body, IfBranch.linesAll_shape depth elsifs,
      Stmt.linesAll_shape (depth + 1) ss]
  | .caseOf _ selector branches none => by
    simp only [Stmt.shape, Stmt.lines, selector.text_shape,
      CaseBranch.linesAll_shape (depth + 1) branches]
  | .caseOf _ selector branches (some ss) => by
    simp only [Stmt.shape, Stmt.lines, selector.text_shape,
      CaseBranch.linesAll_shape (depth + 1) branches, Stmt.linesAll_shape (depth + 1) ss]
  | .forLoop _ _ start stop step body => by
    cases step <;>
      simp only [Stmt.shape, Stmt.lines, start.text_shape, stop.text_shape,
        Stmt.linesAll_shape (depth + 1) body, Option.map_none, Option.map_some, Expr.text_shape]
  | .whileLoop _ condition body => by
    simp only [Stmt.shape, Stmt.lines, condition.text_shape, Stmt.linesAll_shape (depth + 1) body]
  | .repeatLoop _ body condition => by
    simp only [Stmt.shape, Stmt.lines, condition.text_shape, Stmt.linesAll_shape (depth + 1) body]
  | .leave _ none => rfl
  | .leave _ (some x) => by
    simp only [Stmt.shape, Stmt.lines, Option.map_some, x.text_shape]
  | .call _ callSpan name args => by
    simp only [Stmt.shape, Stmt.lines, Expr.text, Expr.render, Arg.renderAll_shape]
  | .invoke _ callee args => by
    simp only [Stmt.shape, Stmt.lines, callee.render_shape, Arg.renderAll_shape]
  | .region _ _ body => by simp only [Stmt.shape, Stmt.lines, Stmt.linesAll_shape (depth + 1) body]
  | .exitLoop _ => rfl
  | .nextPass _ => rfl
  | .empty _ => rfl
  | .goto _ _ => rfl
  | .label _ _ => rfl

/-- A list of statements is printed as its shape is. -/
theorem Stmt.linesAll_shape (depth : Nat) : ∀ ss : List Stmt,
    Stmt.linesAll depth (Stmt.shapeAll id ss) = Stmt.linesAll depth ss
  | [] => rfl
  | s :: ss => by
    simp only [Stmt.shapeAll, Stmt.linesAll, Stmt.lines_shape depth s, Stmt.linesAll_shape depth ss]

theorem IfBranch.linesAll_shape (depth : Nat) : ∀ bs : List IfBranch,
    IfBranch.linesAll depth (IfBranch.shapeAll id bs) = IfBranch.linesAll depth bs
  | [] => rfl
  | .mk _ condition body :: bs => by
    simp only [IfBranch.shapeAll, IfBranch.shape, IfBranch.linesAll, condition.text_shape,
      Stmt.linesAll_shape (depth + 1) body, IfBranch.linesAll_shape depth bs]

theorem CaseBranch.linesAll_shape (depth : Nat) : ∀ bs : List CaseBranch,
    CaseBranch.linesAll depth (CaseBranch.shapeAll id bs) = CaseBranch.linesAll depth bs
  | [] => rfl
  | .mk _ selectors body :: bs => by
    -- The labels are a list of their own that the recursion does not go through.
    have labels : (selectors.map (CaseSelector.shape id)).map CaseSelector.text =
        selectors.map CaseSelector.text := by simp
    simp only [CaseBranch.shapeAll, CaseBranch.shape, CaseBranch.linesAll, labels,
      Stmt.linesAll_shape (depth + 1) body, CaseBranch.linesAll_shape depth bs]

end

theorem Stmt.textAll_shape (ss : List Stmt) : Stmt.textAll (Stmt.shapeAll id ss) = Stmt.textAll ss
  := by
  rw [textAll, linesAll_shape, textAll]

end Plc
