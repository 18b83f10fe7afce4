/-
Smells of trees without places.

Whatever is found in a tree is found in its shape, at no place; so trees of one shape have the same
smells up to their places.

* `Diagnostic.unplaced` — a finding at no place;
* `Smell.ofList_shape` — the smells of a shape;
* `Smell.duplicates_of_shape` — statements and conditions that are written twice.
-/
import Plc.Check.Smell
import Plc.Proofs.Formatting.Shape

namespace Plc

/-- The finding at no place. -/
def Diagnostic.unplaced (d : Diagnostic) : Diagnostic :=
  { d with span := .zero, related := d.related.map fun _ => .zero }

/-- Something is written twice. -/
def Diagnostic.isDuplicate (d : Diagnostic) : Bool :=
  match d.finding with
  | .duplicateCode _ => true
  | _ => false

/-! ### Measures of expressions -/

theorem Flow.countOperators_shape (p : BinaryOp → Bool) (view : Literal → Literal) :
    ∀ e : Expr, Flow.countOperators p (e.shape view) = Flow.countOperators p e
  | .binary _ _ l r => by
    rw [Expr.shape, countOperators, countOperators, countOperators_shape p view l,
      countOperators_shape p view r]
  | .unary _ _ x => countOperators_shape p view x
  | .paren _ x => countOperators_shape p view x
  | .repeated _ _ x => by cases x <;> rfl
  | .literal _ _ => rfl
  | .variable _ => rfl
  | .call _ _ _ => rfl
  | .arrayInit _ _ => rfl
  | .structInit _ _ => rfl

namespace Smell

variable (c : SmellConfig)

theorem constant?_shape : ∀ e : Expr, constant? (e.shape id) = constant? e
  | .literal _ _ => rfl
  | .paren _ x => constant?_shape x
  | .repeated _ _ x => by cases x <;> rfl
  | .variable _ => rfl
  | .unary _ _ _ => rfl
  | .binary _ _ _ _ => rfl
  | .call _ _ _ => rfl
  | .arrayInit _ _ => rfl
  | .structInit _ _ => rfl

theorem ofNumber_unplaced (span : Span) (type : Option String) (n : Int) :
    (ofNumber c span type n).map Diagnostic.unplaced = ofNumber c .zero type n := by
  unfold ofNumber
  split <;> rfl

mutual

theorem ofVariable_shape : ∀ v : Variable,
    ofVariable c (v.shape id) = (ofVariable c v).map Diagnostic.unplaced
  | .named _ _ _ => rfl
  | .address _ _ _ => rfl
  | .member _ b _ => ofVariable_shape b
  | .deref _ b => ofVariable_shape b
  | .element _ b is => by
    rw [Variable.shape, ofVariable, ofVariable, ofVariable_shape b, ofExprs_shape is,
      List.map_append]

theorem ofExpr_shape : ∀ e : Expr, ofExpr c (e.shape id) = (ofExpr c e).map Diagnostic.unplaced
  | .literal span ⟨value, _, _⟩ => by
    cases value with
    | integer n => exact (ofNumber_unplaced c span _ n).symm
    | _ => rfl
  | .variable v => ofVariable_shape v
  | .unary span .not x => ofExpr_shape x
  -- A sign in front of a literal makes one number; in front of anything else it is passed over.
  | .unary span .neg (.literal _ ⟨value, _, _⟩) => by
    cases value with
    | integer n => exact (ofNumber_unplaced c span _ (-n)).symm
    | _ => rfl
  | .unary _ .neg (.variable v) => ofExpr_shape (.variable v)
  | .unary _ .neg (.unary s op x) => ofExpr_shape (.unary s op x)
  | .unary _ .neg (.binary s op l r) => ofExpr_shape (.binary s op l r)
  | .unary _ .neg (.paren s x) => ofExpr_shape (.paren s x)
  | .unary _ .neg (.call s n as) => ofExpr_shape (.call s n as)
  | .unary _ .neg (.repeated s n x) => by cases x <;> rfl
  | .unary _ .neg (.arrayInit s es) => rfl
  | .unary _ .neg (.structInit s fs) => rfl
  | .binary _ _ l r => by
    rw [Expr.shape, ofExpr, ofExpr, ofExpr_shape l, ofExpr_shape r, List.map_append]
  | .paren _ x => ofExpr_shape x
  | .call _ _ args => ofArgs_shape args
  | .repeated _ _ x => by cases x <;> rfl
  | .arrayInit _ _ => rfl
  | .structInit _ _ => rfl

theorem ofExprs_shape : ∀ es : List Expr,
    ofExprs c (Expr.shapeAll id es) = (ofExprs c es).map Diagnostic.unplaced
  | [] => rfl
  | e :: es => by
    rw [Expr.shapeAll, ofExprs, ofExprs, ofExpr_shape e, ofExprs_shape es, List.map_append]

theorem ofArgs_shape : ∀ as : List Arg,
    ofArgs c (Arg.shapeAll id as) = (ofArgs c as).map Diagnostic.unplaced
  | [] => rfl
  | .positional _ x :: as => by
    rw [Arg.shapeAll, Arg.shape, ofArgs, ofArgs, ofExpr_shape x, ofArgs_shape as, List.map_append]
  | .named _ _ x :: as => by
    rw [Arg.shapeAll, Arg.shape, ofArgs, ofArgs, ofExpr_shape x, ofArgs_shape as, List.map_append]
  | .output _ _ v _ :: as => by
    rw [Arg.shapeAll, Arg.shape, ofArgs, ofArgs, ofVariable_shape v, ofArgs_shape as,
      List.map_append]
  | .inferred _ :: as => ofArgs_shape as

end

theorem ofValue_shape (e : Expr) :
    ofValue c (e.shape id) = (ofValue c e).map Diagnostic.unplaced := by
  unfold ofValue
  split
  · exact ofExpr_shape c e
  · rfl

theorem ofInputs_shape (as : List Arg) :
    ofInputs c (Arg.shapeAll id as) = (ofInputs c as).map Diagnostic.unplaced := by
  induction as with
  | nil => rfl
  | cons a as ih =>
    unfold ofInputs at ih ⊢
    rw [Arg.shapeAll, List.flatMap_cons, List.flatMap_cons, ih, List.map_append]
    cases a with
    | positional _ x => exact congrArg (· ++ _) (ofValue_shape c x)
    | named _ _ x => exact congrArg (· ++ _) (ofValue_shape c x)
    | output _ _ _ _ | inferred _ => rfl

theorem ofCondition_shape (e : Expr) :
    ofCondition c (e.shape id) = (ofCondition c e).map Diagnostic.unplaced := by
  have count : Flow.logicalOperators (e.shape id) = Flow.logicalOperators e :=
    Flow.countOperators_shape _ id e
  simp only [ofCondition, count, constant?_shape, ofValue_shape, List.map_append, Expr.span_shape]
  congr 2
  · split <;> rfl
  · cases constant? e <;> rfl

theorem ofConditions_shape (seen : List String) (es : List Expr) :
    ofConditions c seen (es.map (Expr.shape id)) =
      (ofConditions c seen es).map Diagnostic.unplaced := by
  induction es generalizing seen with
  | nil => rfl
  | cons e es ih =>
    simp only [List.map_cons, ofConditions, Expr.text_shape, ofCondition_shape, ih,
      List.map_append, Expr.span_shape]
    congr 2
    split <;> rfl

theorem ofDepth_shape (depth : Nat) (span : Span) :
    ofDepth c depth .zero = (ofDepth c depth span).map Diagnostic.unplaced := by
  unfold ofDepth
  dsimp only
  split <;> rfl

theorem ofEmpty_shape (severity : Severity) (block : String) (span : Span) (ss : List Stmt) :
    ofEmpty severity block .zero (Stmt.shapeAll id ss) =
      (ofEmpty severity block span ss).map Diagnostic.unplaced := by
  cases ss <;> rfl

/-! ### Statements -/

theorem Before.entering_shape (b : Before) (s : Stmt) : b.entering (s.shape id) = b.entering s := by
  cases s with
  | ifThen _ _ _ o | caseOf _ _ _ o => cases o <;> rfl
  | _ => rfl

theorem text_shape (s : Stmt) : Stmt.textAll [s.shape id] = Stmt.textAll [s] :=
  Stmt.textAll_shape [s]

theorem Before.leaving_shape (b : Before) (s : Stmt) :
    b.leaving c (s.shape id) = b.leaving c s := by
  have text := text_shape s
  -- The statement is remembered by its text, which is that of its shape.
  cases s with
  | ifThen _ _ _ o | caseOf _ _ _ o => cases o <;> simp_all [leaving, Stmt.shape]
  | _ => simp_all [leaving, Stmt.shape]

/-- What is wrong where a statement of the given text stands that does something. -/
def Before.found (b : Before) (span : Span) (text : String) : List Diagnostic :=
  (if b.dead then [⟨.deadCode "code after RETURN or EXIT", span, .warning, none⟩] else []) ++
    (if c.duplicates && b.previous == some text then
      [⟨.duplicateCode "statement repeats the one before it", span, .warning, none⟩]
    else [])

theorem Before.found_unplaced (b : Before) (span : Span) (text : String) :
    (b.found c span text).map Diagnostic.unplaced = b.found c .zero text := by
  unfold found
  rw [List.map_append]
  congr 1
  · split <;> rfl
  · split <;> rfl

/-- A statement that is there just before is so in the shape. -/
theorem Before.smells_shape (b : Before) (s : Stmt) :
    b.smells c (s.shape id) = (b.smells c s).map Diagnostic.unplaced := by
  have text := (congrArg (b.found c .zero) (text_shape s)).trans (b.found_unplaced c s.span _).symm
  cases s with
  | empty _ =>
    unfold smells
    cases b.dead <;> rfl
  | ifThen _ _ _ o | caseOf _ _ _ o => cases o <;> exact text
  | _ => exact text

/-- The conditions of an `IF` statement. -/
theorem ofConditions_branches (condition : Expr) (bs : List IfBranch) :
    ofConditions c [] (condition.shape id :: (IfBranch.shapeAll id bs).map IfBranch.condition) =
      (ofConditions c [] (condition :: bs.map IfBranch.condition)).map Diagnostic.unplaced := by
  have later : (IfBranch.shapeAll id bs).map IfBranch.condition =
      (bs.map IfBranch.condition).map (Expr.shape id) := by
    induction bs with
    | nil => rfl
    | cons b bs ih =>
      cases b
      exact congrArg (_ :: ·) ih
  rw [later, ← List.map_cons, ofConditions_shape]

mutual

theorem ofStmt_shape (depth : Nat) : ∀ s : Stmt,
    ofStmt c depth (s.shape id) = (ofStmt c depth s).map Diagnostic.unplaced
  -- Each kind of finding depends on the shape alone; the cases only put them together in the same
  -- order.
  | .assignment _ _ _ value => ofValue_shape c value
  | .ifThen span (.mk _ condition body) elsifs none => by
    simp only [Stmt.shape, IfBranch.shape, ofStmt, List.map_append, ofConditions_branches,
      ← ofEmpty_shape .warning "IF" span body, ← ofDepth_shape c (depth + 1) span,
      ofList_shape (depth + 1) {} body, ofElsifs_shape (depth + 1) elsifs, List.map_nil]
  | .ifThen span (.mk _ condition body) elsifs (some ss) => by
    simp only [Stmt.shape, IfBranch.shape, ofStmt, List.map_append, ofConditions_branches,
      ← ofEmpty_shape .warning "IF" span body, ← ofDepth_shape c (depth + 1) span,
      ofList_shape (depth + 1) {} body, ofElsifs_shape (depth + 1) elsifs,
      ← ofEmpty_shape .hint "ELSE" span ss, ofList_shape (depth + 1) {} ss]
  | .caseOf span _ branches none => by
    simp only [Stmt.shape, ofStmt, List.map_append, ← ofDepth_shape c (depth + 1) span,
      ofBranches_shape (depth + 1) branches]
    congr 1
    split <;> rfl
  | .caseOf span _ branches (some ss) => by
    simp only [Stmt.shape, ofStmt, List.map_append, ← ofDepth_shape c (depth + 1) span,
      ofBranches_shape (depth + 1) branches, ofList_shape (depth + 1) {} ss]
  | .forLoop span _ _ _ _ body => by
    simp only [Stmt.shape, ofStmt, List.map_append, ← ofDepth_shape c (depth + 1) span,
      ← ofEmpty_shape .warning "FOR" span body, ofList_shape (depth + 1) {} body]
  | .whileLoop span condition body => by
    simp only [Stmt.shape, ofStmt, List.map_append, ← ofDepth_shape c (depth + 1) span,
      ← ofEmpty_shape .warning "WHILE" span body, ofList_shape (depth + 1) {} body,
      ofCondition_shape]
  | .repeatLoop span body condition => by
    simp only [Stmt.shape, ofStmt, List.map_append, ← ofDepth_shape c (depth + 1) span,
      ← ofEmpty_shape .warning "REPEAT" span body, ofList_shape (depth + 1) {} body,
      ofCondition_shape]
  | .region _ _ body => ofList_shape depth {} body
  | .call _ _ _ args => ofInputs_shape c args
  | .invoke _ _ args => ofInputs_shape c args
  | .exitLoop _ => rfl
  | .nextPass _ => rfl
  | .leave _ _ => rfl
  | .empty _ => rfl
  | .goto _ _ => rfl
  | .label _ _ => rfl

/-- What is found in a list of statements is found in its shape. -/
theorem ofList_shape (depth : Nat) : ∀ (b : Before) (ss : List Stmt),
    ofList c depth b (Stmt.shapeAll id ss) = (ofList c depth b ss).map Diagnostic.unplaced
  | _, [] => rfl
  | b, s :: ss => by
    simp only [Stmt.shapeAll, ofList, b.entering_shape, Before.smells_shape, Before.leaving_shape,
      ofStmt_shape depth s, ofList_shape depth _ ss, List.map_append]

theorem ofElsifs_shape (depth : Nat) : ∀ bs : List IfBranch,
    ofElsifs c depth (IfBranch.shapeAll id bs) = (ofElsifs c depth bs).map Diagnostic.unplaced
  | [] => rfl
  | .mk _ _ body :: bs => by
    simp only [IfBranch.shapeAll, IfBranch.shape, ofElsifs, ofList_shape depth {} body,
      ofElsifs_shape depth bs, List.map_append]

theorem ofBranches_shape (depth : Nat) : ∀ bs : List CaseBranch,
    ofBranches c depth (CaseBranch.shapeAll id bs) = (ofBranches c depth bs).map Diagnostic.unplaced
  | [] => rfl
  | .mk span _ body :: bs => by
    have empty : (if (Stmt.shapeAll id body).isEmpty then
        [(⟨.emptyCaseBranch, .zero, .warning, none⟩ : Diagnostic)] else []) =
        (if body.isEmpty then [⟨.emptyCaseBranch, span, .warning, none⟩] else []).map
          Diagnostic.unplaced := by cases body <;> rfl
    simp only [CaseBranch.shapeAll, CaseBranch.shape, ofBranches, ofList_shape depth {} body,
      ofBranches_shape depth bs, List.map_append, empty]

end

/-- Trees of one shape have the same duplicates, up to places. -/
theorem duplicates_of_shape {ss ts : List Stmt} (same : Stmt.shapeAll id ss = Stmt.shapeAll id ts)
    (place place' : Option Span) :
    ((ofBody c place ss).filter Diagnostic.isDuplicate).map Diagnostic.unplaced =
      ((ofBody c place' ts).filter Diagnostic.isDuplicate).map Diagnostic.unplaced := by
  have kept (ds : List Diagnostic) : (ds.filter Diagnostic.isDuplicate).map Diagnostic.unplaced =
      (ds.map Diagnostic.unplaced).filter Diagnostic.isDuplicate := by
    rw [List.filter_map]
    rfl
  -- A warning about the length of the body is no duplicate, so its place does not matter.
  have short (place : Option Span) (us : List Stmt) :
      (ofBody c place us).filter Diagnostic.isDuplicate =
        (ofList c 0 {} us).filter Diagnostic.isDuplicate := by
    rw [ofBody_eq, List.filter_append]
    cases place with
    | none => rfl
    | some span =>
      dsimp only [ofLength]
      split <;> rfl
  rw [short, short, kept, kept, ← ofList_shape, ← ofList_shape, same]

end Smell

end Plc
