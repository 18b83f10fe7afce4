/-
Expressions read side by side.

Each rule for expressions gives trees of one shape where the words ahead are the same.  The
characters of a literal with a type in front are taken from the text and not from its words, so
they are left out of the comparison, or no such literal may come up.

* `typedLiteral_twin` — the one rule that looks at the text itself;
* `expression_twin` — the rule that other rules use.
-/
import Plc.Proofs.Formatting.Twin

namespace Plc.Grammar

variable {x : Pair}

/-- The rule gives trees of one shape. -/
abbrev Shaped (x : Pair) (e : Rule Expr) : Prop := Twin x (Expr.shape x.view) e e

variable {u p e : Rule Expr}

/-! ### Operators -/

theorem operatorFrom_twin (least : Nat) {left left' : Expr}
    (h : left.shape x.view = left'.shape x.view) :
    Twin x (Sum.map (Expr.shape x.view) id) (operatorFrom least left) (operatorFrom least left') := by
  refine Twin.lexeme fun l _ => ?_
  split
  · refine .pure ?_
    split
    · rfl
    · exact congrArg Sum.inl h
  · exact .pure (congrArg Sum.inl h)

theorem operation_twin {right : BinaryOp → Rule Expr} (hr : ∀ op, Shaped x (right op))
    {left left' : Expr} (op : BinaryOp) (h : left.shape x.view = left'.shape x.view) :
    Twin x (Sum.map (Expr.shape x.view) (Expr.shape x.view)) (operation right left op)
      (operation right left' op) := by
  refine Twin.advance.bind fun _ _ _ => (hr op).bind fun a a' same => ?_
  refine Twin.bind (f := Expr.shape x.view) (.node fun s s' => ?_) fun b b' same => ?_
  · simp only [Expr.shape, h, same]
  · exact .pure (congrArg Sum.inr same)

theorem climb_twin (hu : Shaped x u) (hp : Shaped x p) (tighter least : Nat) :
    Shaped x (climb u p tighter least) := by
  -- Induction on the rungs that are left; the loop carries the operand built so far, which has one
  -- shape on both sides.
  induction tighter generalizing least with
  | zero => exact hu
  | succ tighter ih =>
    refine Twin.bind hu fun first first' same => Twin.passes.same fun n => ?_
    refine .repeating (fun a a' h => operatorFrom_twin least h) (fun a a' op h => ?_) n same
    exact operation_twin (fun op => .ite hp (ih _)) op h

theorem binaryFrom_twin (hu : Shaped x u) (hp : Shaped x p) (least : Nat) :
    Shaped x (binaryFrom u p least) :=
  climb_twin hu hp _ _

/-! ### Literals -/

theorem literal_twin (t t' : Token) (l : Literal) :
    Twin x (Expr.shape x.view) (literal t l) (literal t' l) := by
  refine Twin.advance.bind fun _ _ _ => ?_
  cases stringLength? l.value with
  | some n => exact (Twin.checkLimit _ _ _ _).same fun _ => .node fun _ _ => rfl
  | none => exact .node fun _ _ => rfl

/-- The same value, or errors of one kind. -/
inductive SameValue : Except Fault Literal.Value → Except Fault Literal.Value → Prop
  | ok (v : Literal.Value) : SameValue (.ok v) (.ok v)
  | error {f f' : Fault} (same : f.SameKind f') : SameValue (.error f) (.error f')

/-- What a time or a date means does not depend on its place. -/
theorem timeValue?_word {t t' : Token} (h : t.word = t'.word) :
    (timeValue? t = none ∧ timeValue? t' = none) ∨
      ∃ v v', timeValue? t = some v ∧ timeValue? t' = some v' ∧ SameValue v v' := by
  obtain ⟨span', rfl⟩ := Token.elsewhere h
  obtain ⟨l, text, span⟩ := t
  -- A date of the right form has a value; one of another form is an error about its own place.
  have shaped (ok : Bool) (v : Literal.Value) : SameValue
      (if ok then .ok v else .error (.grammar ⟨.invalidTimeLiteral, span, none, none, some text⟩))
      (if ok then .ok v
        else .error (.grammar ⟨.invalidTimeLiteral, span', none, none, some text⟩)) := by
    cases ok with
    | true => exact .ok v
    | false => exact .error (.grammar rfl)
  cases l with
  | duration p =>
    refine .inr ⟨_, _, rfl, rfl, ?_⟩
    cases Literal.Duration.nanoseconds p.toList with
    | ok n => exact .ok _
    | error e =>
      cases e with
      | malformed | unknownUnit => exact .error (.grammar rfl)
      | infinite => exact .error .infiniteDuration
  | date p => exact .inr ⟨_, _, rfl, rfl, shaped _ _⟩
  | timeOfDay p => exact .inr ⟨_, _, rfl, rfl, shaped _ _⟩
  | dateAndTime p => exact .inr ⟨_, _, rfl, rfl, shaped _ _⟩
  | _ => exact .inl ⟨rfl, rfl⟩

theorem timeLiteral_twin {t t' : Token} (h : t.word = t'.word)
    {v v' : Except Fault Literal.Value} (hv : SameValue v v') :
    Twin x (Expr.shape x.view) (timeLiteral t v) (timeLiteral t' v') := by
  obtain ⟨span, rfl⟩ := Token.elsewhere h
  refine Twin.advance.bind fun _ _ _ => ?_
  cases hv with
  | ok v => exact .node fun _ _ => rfl
  | error same => exact .throw same

/-- The characters up to the last token are those of the text, so they are left out. -/
theorem typedNode_twin (hidden : ∀ value text text' type,
      x.view ⟨value, text, some type⟩ = x.view ⟨value, text', some type⟩) {type type' : Token}
    (h : type.word = type'.word) (value : Literal.Value) :
    Twin x (Expr.shape x.view) (typedNode type value) (typedNode type' value) := by
  refine (Twin.spanFrom _ _).skip fun s s' => Twin.sourceText.skip fun text text' => ?_
  -- Each text is read at its own places, so nothing is known of what both give.
  obtain ⟨span, rfl⟩ := Token.elsewhere h
  exact .node fun _ _ => congrArg (Expr.literal .zero) (hidden value _ _ _)

theorem typedLiteral_twin (hidden : ∀ value text text' type,
    x.view ⟨value, text, some type⟩ = x.view ⟨value, text', some type⟩) : Shaped x typedLiteral := by
  refine Twin.advance.bind fun type type' htype => (Twin.expect _).bind fun _ _ _ => ?_
  refine (Twin.accept _).same fun minus => Twin.peek.bind fun t t' ht => ?_
  have typed (value : Literal.Value) := typedNode_twin hidden htype value
  obtain ⟨span, rfl⟩ := Token.elsewhere ht
  -- A plain literal is made of the word alone; so the cases on it are those of one token.
  rw [show plainLiteral? { t with span := span } = plainLiteral? t from rfl]
  dsimp only
  split
  · exact .ite (.failExpecting _) (Twin.advance.bind fun _ _ _ => typed _)
  · exact (literal_twin _ _ _).bind fun _ _ _ => typed _
  · exact (literal_twin _ _ _).bind fun _ _ _ => typed _
  · exact .failExpecting _
  · exact .ite (.failExpecting _) ((literal_twin _ _ _).bind fun _ _ _ => typed _)
  · exact .failExpecting _

/-! ### Variables and calls -/

theorem variableRoot_twin : Twin x (Variable.shape x.view) variableRoot variableRoot := by
  refine Twin.peek.bind fun t t' ht => Twin.dialect.same fun d => ?_
  obtain ⟨span, rfl⟩ := Token.elsewhere ht
  dsimp only
  split
  · exact Twin.advance.bind fun _ _ _ => .node fun _ _ => rfl
  · exact .ite (Twin.advance.bind fun _ _ _ => .node fun _ _ => rfl) (.failInvalid _)
  · refine .ite (Twin.advance.bind fun _ _ _ => ?_) (.failInvalid _)
    refine (Twin.expectAnyName _).bind fun name name' same => ?_
    obtain ⟨span, rfl⟩ := Token.elsewhere same
    exact .node fun _ _ => rfl
  · exact Twin.advance.bind fun _ _ _ => .node fun _ _ => rfl
  · exact .failInvalid _

theorem variableAccess_twin (he : Shaped x e) {v v' : Variable}
    (h : v.shape x.view = v'.shape x.view) :
    Twin x (Sum.map (Variable.shape x.view) (Variable.shape x.view)) (variableAccess e v)
      (variableAccess e v') := by
  refine (Twin.sees _).same fun dot => Twin.lexemeAt 1 fun next _ => .ite ?_ ?_
  · refine Twin.advance.bind fun _ _ _ => Twin.advance.bind fun member member' same => ?_
    obtain ⟨span, rfl⟩ := Token.elsewhere same
    refine Twin.bind (f := Variable.shape x.view) (.node fun s s' => ?_) fun w w' same => ?_
    · exact congrArg (Variable.member .zero · _) h
    · exact .pure (congrArg Sum.inr same)
  refine (Twin.sees _).same fun bracket => .ite ?_ ?_
  · refine Twin.advance.bind fun opener opener' _ => ?_
    refine (Twin.commaList he).bind fun indices indices' same => ?_
    refine (Twin.expectClosing _ _ _ _).same fun _ => ?_
    refine Twin.bind (f := Variable.shape x.view) (.node fun s s' => ?_) fun w w' same => ?_
    · simp only [Variable.shape, Expr.shapeAll_eq, h, same]
    · exact .pure (congrArg Sum.inr same)
  refine (Twin.sees _).same fun caret => Twin.dialect.same fun d => .ite ?_ ?_
  · refine Twin.advance.bind fun _ _ _ => ?_
    refine Twin.bind (f := Variable.shape x.view) (.node fun s s' => ?_) fun w w' same => ?_
    · exact congrArg (Variable.deref .zero) h
    · exact .pure (congrArg Sum.inr same)
  · exact .pure (congrArg Sum.inl h)

theorem variableWith_twin (he : Shaped x e) :
    Twin x (Variable.shape x.view) (variableWith e) (variableWith e) := by
  refine variableRoot_twin.bind fun root root' same => Twin.passes.same fun n => ?_
  refine .repeating (fun v v' h => ?_) (fun v v' _ h => variableAccess_twin he h) n same
  exact .pure rfl

theorem argument_twin (he : Shaped x e) : Twin x (Arg.shape x.view) (argument e) (argument e) := by
  refine Twin.peek.bind fun start start' same => Twin.lexemeAt 1 fun next _ => ?_
  obtain ⟨span, rfl⟩ := Token.elsewhere same
  refine .ite ?_ (.ite ?_ (Twin.lexemeAt 2 fun third _ => .ite ?_ ?_))
  · refine Twin.advance.bind fun _ _ _ => Twin.advance.bind fun _ _ _ => ?_
    exact Twin.bind he fun a a' h => .node fun _ _ => congrArg (Arg.named .zero _) h
  · refine Twin.advance.bind fun _ _ _ => Twin.advance.bind fun _ _ _ => ?_
    refine (variableWith_twin he).bind fun v v' h => .node fun _ _ => ?_
    exact congrArg (Arg.output .zero _ · _) h
  · refine Twin.advance.bind fun _ _ _ => Twin.advance.bind fun name name' hname => ?_
    obtain ⟨span, rfl⟩ := Token.elsewhere hname
    refine Twin.advance.bind fun _ _ _ => ?_
    refine (variableWith_twin he).bind fun v v' h => .node fun _ _ => ?_
    exact congrArg (Arg.output .zero _ · _) h
  · exact Twin.bind he fun a a' h => .node fun _ _ => congrArg (Arg.positional .zero) h

theorem argumentOrGap_twin (he : Shaped x e) :
    Twin x (Arg.shape x.view) (argumentOrGap e) (argumentOrGap e) := by
  refine (Twin.sees _).same fun comma => (Twin.sees _).same fun close => .ite ?_ (argument_twin he)
  refine Twin.dialect.same fun d => .ite ?_ (.failInvalid _)
  exact Twin.peek.bind fun t t' _ => .node fun _ _ => rfl

theorem callArgs_twin (he : Shaped x e) :
    Twin x (List.map (Arg.shape x.view)) (callArgs e) (callArgs e) := by
  refine (Twin.expect _).bind fun opener opener' _ => ?_
  refine (Twin.accept _).same fun b => .ite (.pure rfl) (Twin.passes.same fun n => ?_)
  refine (Twin.listed (.pure rfl) (argumentOrGap_twin he) n 0).bind fun args args' same => ?_
  exact (Twin.expectClosing _ _ _ _).same fun _ => .pure same

theorem notCallable_twin {α γ : Type} {f : α → γ} (kind : SyntaxError.Kind) (v v' : Variable) :
    Twin x f (notCallable kind v : Rule α) (notCallable kind v') :=
  Twin.sourceText.skip fun _ _ => .fail rfl

theorem variableOrCall_twin (he : Shaped x e) : Shaped x (variableOrCall e) := by
  refine (variableWith_twin he).bind fun v v' h => (Twin.sees _).same fun b => .ite ?_ ?_
  · -- What is called is the dotted name of the variable, which its shape has as well.
    rw [Variable.path?_of_shape h]
    split
    · exact notCallable_twin _ _ _
    · refine (callArgs_twin he).bind fun args args' same => .node fun _ _ => ?_
      simp only [Expr.shape, Arg.shapeAll_eq, same]
  · exact .pure (congrArg Expr.variable h)

/-! ### Operands -/

theorem primary_twin (he : Shaped x e) : Shaped x (primary e) := by
  refine Twin.peek.bind fun t t' same => ?_
  have times := timeValue?_word same
  obtain ⟨span, rfl⟩ := Token.elsewhere same
  rw [show plainLiteral? { t with span := span } = plainLiteral? t from rfl]
  cases plainLiteral? t with
  | some l => exact literal_twin _ _ l
  | none =>
    rcases times with ⟨neither, neither'⟩ | ⟨v, v', timed, timed', value⟩
    · rw [neither, neither']
      refine .ite ?_ ?_
      · refine Twin.advance.bind fun _ _ _ => Twin.bind he fun a a' h => ?_
        refine (Twin.expectClosing _ _ _ _).same fun _ => .node fun _ _ => ?_
        exact congrArg (Expr.paren .zero) h
      refine Twin.lexemeAt 1 fun second absent => Twin.lexemeAt 2 fun third _ => ?_
      -- A literal with a type in front comes up only where its characters are left out.
      rcases x.typed with barred | hidden
      · rw [absent _ barred, Bool.and_false, Bool.false_and, if_neg Bool.false_ne_true]
        exact .ite (variableOrCall_twin he) (.failInvalid _)
      · exact .ite (typedLiteral_twin hidden) (.ite (variableOrCall_twin he) (.failInvalid _))
    · rw [timed, timed']
      exact timeLiteral_twin same value

/-! ### Signs -/

theorem unaryBody_twin (hu : Shaped x u) (hp : Shaped x p) : Shaped x (unaryBody u p) := by
  refine Twin.peek.bind fun t t' same => ?_
  obtain ⟨span, rfl⟩ := Token.elsewhere same
  dsimp only
  split
  · refine Twin.advance.bind fun _ _ _ => (binaryFrom_twin hu hp _).bind fun a a' h => ?_
    exact .node fun _ _ => congrArg (Expr.unary .zero .not) h
  · refine Twin.advance.bind fun _ _ _ => Twin.bind hu fun a a' h => ?_
    exact .node fun _ _ => congrArg (Expr.unary .zero .neg) h
  · refine Twin.advance.bind fun _ _ _ => Twin.bind hu fun a a' h => .pure ?_
    rw [Expr.shape_withSpan, Expr.shape_withSpan, h]
  · exact primary_twin (binaryFrom_twin hu hp 1)

mutual

theorem unary_twin : ∀ levels, Shaped x (unary levels)
  | 0 => .tooDeep
  | levels + 1 => .nested (unaryBody_twin (unary_twin levels) (powerOperand_twin levels))

theorem powerOperand_twin : ∀ levels, Shaped x (powerOperand levels)
  | 0 => .tooDeep
  | levels + 1 => .nested (binaryFrom_twin (unary_twin levels) (powerOperand_twin levels) _)

end

theorem expression_twin (levels : Nat) : Shaped x (expression levels) :=
  binaryFrom_twin (unary_twin levels) (powerOperand_twin levels) 1

end Plc.Grammar
