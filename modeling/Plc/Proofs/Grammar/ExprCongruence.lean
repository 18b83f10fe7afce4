/-
The rules for expressions, seen by relations that the ways of building rules keep.

A rule that takes the rules for its parts as arguments keeps the relation between them;
the recursive rules follow by induction on the numbers of constructs that may be opened.
-/
import Plc.Proofs.Grammar.Congruence

namespace Plc.Grammar

/-- The initial value of a declaration, from the rules for what stands inside it. -/
def initializerBody (initializer expression : Rule Expr) : Rule Expr := do
  if ← sees Mark.leftBracket then
    arrayInit initializer
  else if (← sees Mark.leftParen) && (← lexemeAt 1).isName && (← lexemeAt 2).is Mark.assign then
    structInit initializer
  else
    expression

namespace Congruence

variable {Q N : ⦃α : Type⦄ → Rule α → Rule α → Prop}
variable {e e' u u' p p' : Rule Expr} {levels levels' : Nat}

section Parts

variable (h : Congruence Q N)
include h

/-! ### Operators -/

theorem operatorFrom_rel (least : Nat) (left : Expr) :
    Q (operatorFrom least left) (operatorFrom least left) := by
  unfold operatorFrom
  refine h.bind h.lexeme_rel fun l => ?_
  split
  · exact h.pure _
  · exact h.pure _

theorem operation_rel {right right' : BinaryOp → Rule Expr} (hr : ∀ op, Q (right op) (right' op))
    (left : Expr) (op : BinaryOp) : Q (operation right left op) (operation right' left op) := by
  unfold operation
  refine h.bind h.advance fun _ => ?_
  exact h.bind (hr op) fun x => h.bind (h.node_rel _ _) fun x => h.pure _

theorem climb_rel (hu : Q u u') (hp : Q p p') (tighter least : Nat) :
    Q (climb u p tighter least) (climb u' p' tighter least) := by
  induction tighter generalizing least with
  | zero => exact hu
  | succ tighter ih =>
    unfold climb
    refine h.bind hu fun first => ?_
    refine h.repeating (h.operatorFrom_rel least) (h.operation_rel fun op => ?_) first
    split
    · exact hp
    · exact ih _

theorem binaryFrom_rel (hu : Q u u') (hp : Q p p') (least : Nat) :
    Q (binaryFrom u p least) (binaryFrom u' p' least) :=
  climb_rel h hu hp _ _

/-! ### Literals -/

theorem literal_rel (t : Token) (l : Literal) : Q (literal t l) (literal t l) := by
  unfold literal
  refine h.bind h.advance fun _ => ?_
  cases stringLength? l.value with
  | some n => exact h.bind (h.checkLimit _ _ _) fun _ => h.node_rel _ _
  | none => exact h.node_rel _ _

theorem timeLiteral_rel (t : Token) (value : Except Fault Literal.Value) :
    Q (timeLiteral t value) (timeLiteral t value) := by
  unfold timeLiteral
  refine h.bind h.advance fun _ => ?_
  cases value with
  | ok v => exact h.node_rel _ _
  | error f => exact h.throw f

theorem typedNode_rel (type : Token) (value : Literal.Value) :
    Q (typedNode type value) (typedNode type value) := by
  unfold typedNode
  refine h.bind (h.spanFrom_rel _) fun s => ?_
  exact h.bind h.sourceText fun text => h.node_rel _ _

theorem typedLiteral_rel : Q typedLiteral typedLiteral := by
  unfold typedLiteral
  refine h.bind h.advance fun type => ?_
  refine h.bind (h.expect_rel _) fun _ => ?_
  refine h.bind (h.accept_rel _) fun minus => ?_
  refine h.bind h.peek_rel fun t => ?_
  split
  · exact h.ite (h.failExpecting_rel _) (h.bind h.advance fun _ => typedNode_rel h _ _)
  · exact h.bind (literal_rel h _ _) fun _ => typedNode_rel h _ _
  · exact h.bind (literal_rel h _ _) fun _ => typedNode_rel h _ _
  · exact h.failExpecting_rel _
  · exact h.ite (h.failExpecting_rel _) (h.bind (literal_rel h _ _) fun _ => typedNode_rel h _ _)
  · exact h.failExpecting_rel _

/-! ### Variables and calls -/

theorem variableRoot_rel : Q variableRoot variableRoot := by
  unfold variableRoot
  refine h.bind h.peek_rel fun t => ?_
  refine h.bind h.dialect fun d => ?_
  split
  · exact h.bind h.advance fun _ => h.node_rel _ _
  · exact h.ite (h.bind h.advance fun _ => h.node_rel _ _) (h.failInvalid_rel _)
  · refine h.ite (h.bind h.advance fun _ => ?_) (h.failInvalid_rel _)
    exact h.bind (h.expectAnyName_rel _) fun name => h.node_rel _ _
  · exact h.bind h.advance fun _ => h.node_rel _ _
  · exact h.failInvalid_rel _

theorem variableAccess_rel (he : Q e e') (v : Variable) :
    Q (variableAccess e v) (variableAccess e' v) := by
  unfold variableAccess
  refine h.bind (h.sees_rel _) fun dot => ?_
  refine h.bind (h.lexemeAt_rel _) fun next => h.ite ?_ ?_
  · refine h.bind h.advance fun _ => ?_
    refine h.bind h.advance fun member => ?_
    exact h.bind (h.node_rel _ _) fun x => h.pure _
  refine h.bind (h.sees_rel _) fun bracket => h.ite ?_ ?_
  · refine h.bind h.advance fun opener => ?_
    refine h.bind (h.commaList _ he) fun indices => ?_
    refine h.bind (h.expectClosing_rel _ _ _) fun _ => ?_
    exact h.bind (h.node_rel _ _) fun x => h.pure _
  refine h.bind (h.sees_rel _) fun caret => ?_
  refine h.bind h.dialect fun d => h.ite ?_ (h.pure _)
  refine h.bind h.advance fun _ => ?_
  exact h.bind (h.node_rel _ _) fun x => h.pure _

theorem variableWith_rel (he : Q e e') : Q (variableWith e) (variableWith e') := by
  unfold variableWith
  refine h.bind (variableRoot_rel h) fun root => ?_
  exact h.repeating (fun _ => h.pure _) (fun v _ => variableAccess_rel h he v) root

theorem argument_rel (he : Q e e') : Q (argument e) (argument e') := by
  unfold argument
  refine h.bind h.peek_rel fun start => ?_
  refine h.bind (h.lexemeAt_rel _) fun next => h.ite ?_ ?_
  · refine h.bind h.advance fun _ => ?_
    refine h.bind h.advance fun _ => ?_
    exact h.bind he fun value => h.node_rel _ _
  refine h.ite ?_ ?_
  · refine h.bind h.advance fun _ => ?_
    refine h.bind h.advance fun _ => ?_
    exact h.bind (variableWith_rel h he) fun target => h.node_rel _ _
  refine h.bind (h.lexemeAt_rel _) fun third => h.ite ?_ ?_
  · refine h.bind h.advance fun _ => ?_
    refine h.bind h.advance fun name => ?_
    refine h.bind h.advance fun _ => ?_
    exact h.bind (variableWith_rel h he) fun target => h.node_rel _ _
  · exact h.bind he fun value => h.node_rel _ _

theorem argumentOrGap_rel (he : Q e e') : Q (argumentOrGap e) (argumentOrGap e') := by
  unfold argumentOrGap
  refine h.bind (h.sees_rel _) fun comma => ?_
  refine h.bind (h.sees_rel _) fun paren => h.ite ?_ (argument_rel h he)
  refine h.bind h.dialect fun d => h.ite ?_ (h.failInvalid_rel _)
  exact h.bind h.peek_rel fun t => h.node_rel _ _

theorem callArgs_rel (he : Q e e') : Q (callArgs e) (callArgs e') := by
  unfold callArgs
  refine h.bind (h.expect_rel _) fun opener => ?_
  refine h.bind (h.accept_rel _) fun b => h.ite (h.pure _) ?_
  refine h.follow (h.listed _ (h.pure true) (argumentOrGap_rel h he) 0) fun args => ?_
  exact h.bind (h.expectClosing_rel _ _ _) fun _ => h.pure _

theorem notCallable_rel {α : Type} (kind : SyntaxError.Kind) (callee : Variable) :
    Q (notCallable kind callee : Rule α) (notCallable kind callee) := by
  unfold notCallable
  exact h.bind h.sourceText fun text => h.fail_rel _

theorem variableOrCall_rel (he : Q e e') : Q (variableOrCall e) (variableOrCall e') := by
  unfold variableOrCall
  refine h.bind (variableWith_rel h he) fun v => ?_
  refine h.bind (h.sees_rel _) fun b => h.ite ?_ (h.pure _)
  cases v.path? with
  | none => exact notCallable_rel h _ _
  | some name => exact h.bind (callArgs_rel h he) fun args => h.node_rel _ _

/-! ### Operands -/

theorem primary_rel (he : Q e e') : Q (primary e) (primary e') := by
  unfold primary
  refine h.bind h.peek_rel fun t => ?_
  split
  · exact literal_rel h _ _
  · exact timeLiteral_rel h _ _
  refine h.ite ?_ ?_
  · refine h.bind h.advance fun _ => ?_
    refine h.bind he fun inner => ?_
    exact h.bind (h.expectClosing_rel _ _ _) fun _ => h.node_rel _ _
  refine h.bind (h.lexemeAt_rel _) fun second => ?_
  refine h.bind (h.lexemeAt_rel _) fun third => h.ite (typedLiteral_rel h) ?_
  exact h.ite (variableOrCall_rel h he) (h.failInvalid_rel _)

theorem unaryBody_rel (hu : Q u u') (hp : Q p p') : Q (unaryBody u p) (unaryBody u' p') := by
  unfold unaryBody
  refine h.bind h.peek_rel fun t => ?_
  split
  · refine h.bind h.advance fun _ => ?_
    exact h.bind (binaryFrom_rel h hu hp _) fun x => h.node_rel _ _
  · refine h.bind h.advance fun _ => ?_
    exact h.bind hu fun x => h.node_rel _ _
  · refine h.bind h.advance fun _ => ?_
    exact h.bind hu fun x => h.pure _
  · exact primary_rel h (binaryFrom_rel h hu hp _)

/-! ### Initial values -/

theorem arrayElement_rel (he : Q e e') : Q (arrayElement e) (arrayElement e') := by
  unfold arrayElement
  refine h.bind h.peek_rel fun t => ?_
  split
  · refine h.bind (h.lexemeAt_rel _) fun next => h.ite ?_ he
    refine h.bind h.advance fun _ => ?_
    refine h.bind h.advance fun _ => ?_
    refine h.bind (h.sees_rel _) fun b => ?_
    refine h.choose (h.pure _) (h.map _ he) fun value => ?_
    exact h.bind (h.expect_rel _) fun _ => h.node_rel _ _
  · exact he

theorem arrayInit_rel (he : Q e e') : Q (arrayInit e) (arrayInit e') := by
  unfold arrayInit
  refine h.bind h.advance fun opener => ?_
  have more := h.bind (h.sees_rel Mark.rightBracket) fun b => h.pure !b
  refine h.follow (h.listed _ more (arrayElement_rel h he) 0) fun elements => ?_
  exact h.bind (h.expectClosing_rel _ _ _) fun _ => h.node_rel _ _

theorem fieldInit_rel (he : Q e e') : Q (fieldInit e) (fieldInit e') := by
  unfold fieldInit
  refine h.bind (h.expectName_rel _) fun name => ?_
  refine h.bind (h.expect_rel _) fun _ => ?_
  exact h.bind he fun value => h.node_rel _ _

theorem structInit_rel (he : Q e e') : Q (structInit e) (structInit e') := by
  unfold structInit
  refine h.bind h.advance fun opener => ?_
  refine h.follow (h.listed _ (h.pure true) (fieldInit_rel h he) 0) fun fields => ?_
  exact h.bind (h.expectClosing_rel _ _ _) fun _ => h.node_rel _ _

theorem initializerBody_rel (hi : Q u u') (he : Q e e') :
    Q (initializerBody u e) (initializerBody u' e') := by
  unfold initializerBody
  refine h.bind (h.sees_rel _) fun bracket => h.ite (arrayInit_rel h hi) ?_
  refine h.bind (h.sees_rel _) fun paren => ?_
  refine h.bind (h.lexemeAt_rel _) fun second => ?_
  refine h.bind (h.lexemeAt_rel _) fun third => ?_
  exact h.ite (structInit_rel h hi) he

end Parts

/-! ### Rules that open constructs -/

section Levels

variable (h : Congruence Q)
include h

mutual

theorem unary_rel {levels levels' : Nat} : Levels Q levels levels' → Q (unary levels) (unary levels')
  | .zero => h.tooDeep
  | .spent deep _ => deep _
  | .succ hl => h.nested (unaryBody_rel h (unary_rel hl) (powerOperand_rel hl))

theorem powerOperand_rel {levels levels' : Nat} :
    Levels Q levels levels' → Q (powerOperand levels) (powerOperand levels')
  | .zero => h.tooDeep
  | .spent deep _ => deep _
  | .succ hl => h.nested (binaryFrom_rel h (unary_rel hl) (powerOperand_rel hl) _)

end

theorem expression_rel (hl : Levels Q levels levels') :
    Q (expression levels) (expression levels') :=
  binaryFrom_rel h (unary_rel h hl) (powerOperand_rel h hl) 1

theorem initializer_rel {levels levels' : Nat} :
    Levels Q levels levels' → Q (initializer levels) (initializer levels')
  | .zero => h.tooDeep
  | .spent deep _ => deep _
  | .succ hl => h.nested (initializerBody_rel h (initializer_rel hl) (expression_rel h hl))

end Levels

end Congruence

end Plc.Grammar
