/-
The nodes of expressions are counted.

Each rule for expressions counts at least as many nodes as its result has.  A plus sign moves its
operand and builds nothing.

* `expression_builds`, `leftValue_builds`, `initializer_builds` — the rules that other rules use.
-/
import Plc.Proofs.NodeCount.Account

namespace Plc

theorem Expr.flatMap_nodes (es : List Expr) : es.flatMap Expr.nodes = Expr.nodesAll es := by
  rw [Expr.nodesAll_eq, List.flatMap_map]
  rfl

theorem Arg.flatMap_nodes (as : List Arg) : as.flatMap Arg.nodes = Arg.nodesAll as := by
  rw [Arg.nodesAll_eq, List.flatMap_map]
  rfl

theorem Variable.length_nodes_withSpan (s : Span) (v : Variable) :
    (v.withSpan s).nodes.length = v.nodes.length := by
  cases v <;> rfl

/-- A node at another place has as many nodes below it. -/
theorem Expr.length_nodes_withSpan (s : Span) (e : Expr) :
    (e.withSpan s).nodes.length = e.nodes.length := by
  cases e with
  | «variable» v => exact Variable.length_nodes_withSpan s v
  | repeated _ _ x => cases x <;> rfl
  | _ => rfl

namespace Grammar

/-- The rule counts the nodes of its result. -/
abbrev Counts {α : Type} (r : Rule α) (made : α → List Node) : Prop :=
  Builds ByNumber [] r made

variable {u p e : Rule Expr} {known : List Node}

/-! ### Operators -/

theorem operatorFrom_builds (least : Nat) (left : Expr) :
    Builds ByNumber left.nodes (operatorFrom least left)
      (Sum.elim Expr.nodes fun _ => left.nodes) := by
  refine Builds.lexeme.bind fun l => ?_
  split
  · split
    · exact .same rfl
    · exact .same rfl
  · exact .same rfl

theorem operation_builds {right : BinaryOp → Rule Expr}
    (h : ∀ op, Counts (right op) Expr.nodes) (left : Expr) (op : BinaryOp) :
    Builds ByNumber left.nodes (operation right left op) (Sum.elim Expr.nodes Expr.nodes) := by
  refine Builds.advance.bind fun _ => ?_
  refine ((h op).frame byNumber _).bind fun x => ?_
  exact (Builds.count fun s => by simp [Expr.nodes]).bind fun e => .same rfl

theorem climb_builds (hu : Counts u Expr.nodes) (hp : Counts p Expr.nodes) (tighter least : Nat) :
    Counts (climb u p tighter least) Expr.nodes := by
  induction tighter generalizing least with
  | zero => exact hu
  | succ tighter ih =>
    refine Builds.bind hu fun first => ?_
    refine Builds.passes.bind fun n => ?_
    refine Builds.repeating Expr.nodes (operatorFrom_builds least) (operation_builds fun op => ?_) n first
    split
    · exact hp
    · exact ih _

theorem binaryFrom_builds (hu : Counts u Expr.nodes) (hp : Counts p Expr.nodes) (least : Nat) :
    Counts (binaryFrom u p least) Expr.nodes :=
  climb_builds hu hp _ _

/-! ### Literals -/

theorem literal_builds (t : Token) (l : Literal) :
    Builds ByNumber known (literal t l) fun x => known ++ x.nodes := by
  refine Builds.advance.bind fun _ => ?_
  cases stringLength? l.value with
  | some n =>
    refine Builds.bind (.of_countsUp (countsUp.checkLimit _ _ _)) fun _ => ?_
    exact .count fun s => by simp [Expr.nodes]
  | none => exact .count fun s => by simp [Expr.nodes]

theorem timeLiteral_builds (t : Token) (value : Except Fault Literal.Value) :
    Counts (timeLiteral t value) Expr.nodes := by
  refine Builds.advance.bind fun _ => ?_
  cases value with
  | ok v => exact .count fun s => by simp [Expr.nodes]
  | error f => exact fun _ => .throw f

theorem typedNode_builds (type : Token) (value : Literal.Value) :
    Builds ByNumber known (typedNode type value) Expr.nodes := by
  refine Builds.bind (.of_countsUp (countsUp.spanFrom_rel _)) fun s => ?_
  refine Builds.bind (.of_countsUp countsUp.sourceText) fun text => ?_
  exact .count fun s => by simp [Expr.nodes]

/-- The number or string after the `#` is counted, too, and then thrown away. -/
theorem typedLiteral_builds : Counts typedLiteral Expr.nodes := by
  refine Builds.advance.bind fun type => ?_
  refine (Builds.expect _).bind fun _ => ?_
  refine (Builds.accept _).bind fun minus => ?_
  refine Builds.peek.bind fun t => ?_
  split
  · exact .ite (.failExpecting _) (Builds.advance.bind fun _ => typedNode_builds type _)
  · exact (literal_builds t _).bind fun _ => typedNode_builds type _
  · exact (literal_builds t _).bind fun _ => typedNode_builds type _
  · exact .failExpecting _
  · exact .ite (.failExpecting _) ((literal_builds t _).bind fun _ => typedNode_builds type _)
  · exact .failExpecting _

/-! ### Variables and calls -/

theorem variableRoot_builds : Counts variableRoot Variable.nodes := by
  refine Builds.peek.bind fun t => Builds.dialect.bind fun d => ?_
  dsimp only
  split
  · exact Builds.advance.bind fun _ => .count fun s => by simp [Variable.nodes]
  · refine .ite (Builds.advance.bind fun _ => ?_) (.failInvalid _)
    exact .count fun s => by simp [Variable.nodes]
  · refine .ite (Builds.advance.bind fun _ => (Builds.expectAnyName _).bind fun name => ?_)
      (.failInvalid _)
    exact .count fun s => by simp [Variable.nodes]
  · exact Builds.advance.bind fun _ => .count fun s => by simp [Variable.nodes]
  · exact .failInvalid _

theorem variableAccess_builds (he : Counts e Expr.nodes) (v : Variable) :
    Builds ByNumber v.nodes (variableAccess e v) (Sum.elim Variable.nodes Variable.nodes) := by
  refine (Builds.sees _).bind fun dot => (Builds.lexemeAt _).bind fun next => .ite ?_ ?_
  · refine Builds.advance.bind fun _ => Builds.advance.bind fun member => ?_
    exact (Builds.count fun s => by simp [Variable.nodes]).bind fun w => .same rfl
  refine (Builds.sees _).bind fun bracket => .ite ?_ ?_
  · refine Builds.advance.bind fun opener => ?_
    refine (Builds.commaList byNumber he).bind fun indices => ?_
    refine (Builds.expectClosing _ _ _).bind fun _ => ?_
    refine (Builds.count fun s => ?_).bind fun w => .same rfl
    simp [Variable.nodes, Expr.flatMap_nodes]
  refine (Builds.sees _).bind fun caret => Builds.dialect.bind fun d => .ite ?_ (.same rfl)
  refine Builds.advance.bind fun _ => ?_
  exact (Builds.count fun s => by simp [Variable.nodes]).bind fun w => .same rfl

theorem variableWith_builds (he : Counts e Expr.nodes) :
    Counts (variableWith e) Variable.nodes := by
  refine variableRoot_builds.bind fun root => Builds.passes.bind fun n => ?_
  exact .repeating Variable.nodes (fun v => .same rfl) (fun v _ => variableAccess_builds he v) n root

theorem argument_builds (he : Counts e Expr.nodes) : Counts (argument e) Arg.nodes := by
  refine Builds.peek.bind fun start => (Builds.lexemeAt _).bind fun next => .ite ?_ ?_
  · refine Builds.advance.bind fun _ => Builds.advance.bind fun _ => ?_
    exact Builds.bind he fun value => .count fun s => by simp [Arg.nodes]
  refine .ite ?_ ?_
  · refine Builds.advance.bind fun _ => Builds.advance.bind fun _ => ?_
    exact (variableWith_builds he).bind fun target => .count fun s => by simp [Arg.nodes]
  refine (Builds.lexemeAt _).bind fun third => .ite ?_ ?_
  · refine Builds.advance.bind fun _ => Builds.advance.bind fun name => ?_
    refine Builds.advance.bind fun _ => ?_
    exact (variableWith_builds he).bind fun target => .count fun s => by simp [Arg.nodes]
  exact Builds.bind he fun value => .count fun s => by simp [Arg.nodes]

theorem argumentOrGap_builds (he : Counts e Expr.nodes) : Counts (argumentOrGap e) Arg.nodes := by
  refine (Builds.sees _).bind fun comma => (Builds.sees _).bind fun close => .ite ?_ ?_
  · refine Builds.dialect.bind fun d => .ite (Builds.peek.bind fun t => ?_) (.failInvalid _)
    exact .count fun s => by simp [Arg.nodes]
  exact argument_builds he

theorem callArgs_builds (he : Counts e Expr.nodes) :
    Builds ByNumber known (callArgs e) fun args => known ++ Arg.nodesAll args := by
  refine (Builds.expect _).bind fun opener => ?_
  refine (Builds.accept _).bind fun b => .ite (.same (List.append_nil _)) ?_
  refine Builds.passes.bind fun n => ?_
  refine (Builds.listed byNumber (fun _ _ => Nat.le_refl _) (argumentOrGap_builds he) n 0).bind
    fun args => ?_
  exact (Builds.expectClosing _ _ _).bind fun _ => .same (by rw [Arg.flatMap_nodes])

theorem notCallable_builds {α : Type} (kind : SyntaxError.Kind) (callee : Variable)
    (made : α → List Node) : Builds ByNumber known (notCallable kind callee) made :=
  Builds.bind (.of_countsUp countsUp.sourceText) fun _ => .fail _

theorem variableOrCall_builds (he : Counts e Expr.nodes) :
    Counts (variableOrCall e) Expr.nodes := by
  refine (variableWith_builds he).bind fun v => (Builds.sees _).bind fun b => .ite ?_ (.same rfl)
  split
  · exact notCallable_builds _ _ _
  · refine (callArgs_builds he).bind fun args => .count fun s => ?_
    rw [Expr.nodes, List.length_cons, List.length_append]
    exact Nat.succ_le_succ (Nat.le_add_left ..)

/-! ### Operands -/

theorem primary_builds (he : Counts e Expr.nodes) : Counts (primary e) Expr.nodes := by
  refine Builds.peek.bind fun t => ?_
  split
  · exact literal_builds t _
  · exact timeLiteral_builds t _
  · refine .ite ?_ ?_
    · refine Builds.advance.bind fun _ => Builds.bind he fun inner => ?_
      exact (Builds.expectClosing _ _ _).bind fun _ => .count fun s => by simp [Expr.nodes]
    refine (Builds.lexemeAt _).bind fun next => (Builds.lexemeAt _).bind fun third => ?_
    exact .ite typedLiteral_builds (.ite (variableOrCall_builds he) (.failInvalid _))

/-- A sign or `NOT` is one more node; a plus sign only moves its operand. -/
theorem unaryBody_builds (hu : Counts u Expr.nodes) (hp : Counts p Expr.nodes) :
    Counts (unaryBody u p) Expr.nodes := by
  refine Builds.peek.bind fun t => ?_
  split
  · refine Builds.advance.bind fun _ => Builds.bind (binaryFrom_builds hu hp _) fun x => ?_
    exact .count fun s => by simp [Expr.nodes]
  · refine Builds.advance.bind fun _ => Builds.bind hu fun x => ?_
    exact .count fun s => by simp [Expr.nodes]
  · refine Builds.advance.bind fun _ => Builds.bind hu fun x => .pure byNumber ?_
    exact Nat.le_of_eq (Expr.length_nodes_withSpan _ x)
  · exact primary_builds (binaryFrom_builds hu hp 1)

mutual

theorem unary_builds : ∀ levels, Counts (unary levels) Expr.nodes
  | 0 => .tooDeep
  | levels + 1 => .nested (unaryBody_builds (unary_builds levels) (powerOperand_builds levels))

theorem powerOperand_builds : ∀ levels, Counts (powerOperand levels) Expr.nodes
  | 0 => .tooDeep
  | levels + 1 =>
    .nested (binaryFrom_builds (unary_builds levels) (powerOperand_builds levels) _)

end

theorem expression_builds (levels : Nat) : Counts (expression levels) Expr.nodes :=
  binaryFrom_builds (unary_builds levels) (powerOperand_builds levels) 1

/-! ### Initial values -/

theorem arrayElement_builds (hi : Counts e Expr.nodes) : Counts (arrayElement e) Expr.nodes := by
  refine Builds.peek.bind fun t => ?_
  split
  · next n _ =>
    refine (Builds.lexemeAt _).bind fun next => .ite ?_ hi
    refine Builds.advance.bind fun _ => Builds.advance.bind fun _ => ?_
    refine (Builds.sees _).bind fun b => ?_
    have close (x : Option Expr) : Builds ByNumber (Expr.nodesOpt x) (do
        let _ ← expect Mark.rightParen
        node t.span fun s => .repeated s n x) Expr.nodes := by
      refine (Builds.expect _).bind fun _ => .count fun s => ?_
      cases x <;> simp [Expr.nodes, Expr.nodesOpt]
    refine .ite (close none) ?_
    rw [map_eq_pure_bind, bind_assoc]
    exact Builds.bind hi fun x => close (some x)
  · exact hi

theorem arrayInit_builds (hi : Counts e Expr.nodes) : Counts (arrayInit e) Expr.nodes := by
  refine Builds.advance.bind fun opener => Builds.passes.bind fun n => ?_
  have more : CountsUp do return !(← sees Mark.rightBracket) :=
    CountsUp.bind (countsUp.sees_rel _) fun _ => countsUp.pure _
  refine (Builds.listed byNumber more (arrayElement_builds hi) n 0).bind fun es => ?_
  refine (Builds.expectClosing _ _ _).bind fun _ => .count fun s => ?_
  simp [Expr.nodes, Expr.flatMap_nodes]

theorem fieldInit_builds (hi : Counts e Expr.nodes) : Counts (fieldInit e) Arg.nodes := by
  refine (Builds.expectName _).bind fun name => (Builds.expect _).bind fun _ => ?_
  exact Builds.bind hi fun x => .count fun s => by simp [Arg.nodes]

theorem structInit_builds (hi : Counts e Expr.nodes) : Counts (structInit e) Expr.nodes := by
  refine Builds.advance.bind fun opener => Builds.passes.bind fun n => ?_
  refine (Builds.listed byNumber (fun _ _ => Nat.le_refl _) (fieldInit_builds hi) n 0).bind
    fun fs => ?_
  refine (Builds.expectClosing _ _ _).bind fun _ => .count fun s => ?_
  simp [Expr.nodes, Arg.flatMap_nodes]

theorem initializer_builds : ∀ levels, Counts (initializer levels) Expr.nodes
  | 0 => .tooDeep
  | levels + 1 => by
    refine Builds.nested ((Builds.sees _).bind fun b => .ite ?_ ?_)
    · exact arrayInit_builds (initializer_builds levels)
    refine (Builds.sees _).bind fun paren => (Builds.lexemeAt _).bind fun next => ?_
    refine (Builds.lexemeAt _).bind fun third => .ite ?_ (expression_builds levels)
    exact structInit_builds (initializer_builds levels)

end Grammar

end Plc
