/-
Expressions come to an end by themselves.

Operands, operators and what stands in parentheses and brackets pass over a token for each construct
that is opened, and none of them is recovered from.

* `expression`, `initializer` — no bound that is large enough ends them, and they pass over a token.
-/
import Plc.Proofs.Progress.Rule

namespace Plc.Grammar.Ends

variable {α : Type} {ahead spare : Bool} {n : Nat} {x : Nat → Rule Expr}

/-! ### Operators -/

section Operators

variable {u p : Nat → Rule Expr}

theorem operation {right : Nat → BinaryOp → Rule Expr}
    (hr : ∀ op, Ends false n (fun _ => 1) spare fun levels => right levels op) (left : Expr)
    (op : BinaryOp) : Ends true n passing spare fun levels => operation (right levels) left op := by
  unfold Grammar.operation
  refine advance.bind fun _ => (hr op).bind fun r => ?_
  exact bind (node fun _ => rfl) fun e => done rfl

/-- What stands to the right of an operator comes behind an operand. -/
theorem climb (hu : Ends false n (fun _ => 1) spare u)
    (hp : ∀ m < n, Ends false m (fun _ => 1) spare p) (tighter least : Nat) :
    Ends false n (fun _ => 1) spare fun levels => climb (u levels) (p levels) tighter least := by
  induction tighter generalizing n least with
  | zero => exact hu
  | succ tighter ih =>
    unfold Grammar.climb
    refine hu.inside fun m less first => repeating (fun left => ?_) first
    have right (op : BinaryOp) : Ends false m (fun _ => 1) spare fun levels =>
        if op = .power then p levels
        else Grammar.climb (u levels) (p levels) tighter (op.precedence + 1) :=
      ite (fun _ => hp m less) fun _ =>
        ih (hu.below m less) (fun k lower => hp k (Nat.lt_trans lower less)) _
    simp only [operatorFrom, bind_assoc]
    refine lexeme (fun l => ?_) (done rfl)
    cases BinaryOp.ofLexeme? l with
    | none => exact done rfl
    | some op =>
      by_cases tight : least ≤ op.precedence
      · simp only [if_pos tight]
        exact operation right left op
      · simp only [if_neg tight]
        exact done rfl

theorem binaryFrom (hu : Ends false n (fun _ => 1) spare u)
    (hp : ∀ m < n, Ends false m (fun _ => 1) spare p) (least : Nat) :
    Ends false n (fun _ => 1) spare fun levels => binaryFrom (u levels) (p levels) least :=
  climb hu hp _ least

end Operators

/-! ### Literals -/

theorem literal (t : Token) (l : Literal) :
    Ends true n (fun _ => 1) spare fun _ => literal t l := by
  unfold Grammar.literal
  refine advance.lead fun _ => ?_
  split
  · exact (checkLimit _ _ _).next fun _ => node fun _ => rfl
  · exact node fun _ => rfl

/-- No bound is met in the value of a time or date: it is malformed, or too long a duration. -/
theorem timeValue?_error {t : Token} {f : Fault} (h : timeValue? t = some (.error f)) :
    (∃ e, f = .grammar e) ∨ f = .infiniteDuration := by
  unfold timeValue? at h
  dsimp only at h
  split at h
  · split at h
    · cases h
    · cases h
      exact .inl ⟨_, rfl⟩
    · cases h
      exact .inl ⟨_, rfl⟩
    · cases h
      exact .inr rfl
  iterate 3
    · split at h
      · cases h
      · cases h
        exact .inl ⟨_, rfl⟩
  · cases h

theorem timeLiteral {t : Token} {value : Except Fault Literal.Value}
    (h : timeValue? t = some value) :
    Ends true n (fun _ => 1) spare fun _ => timeLiteral t value := by
  unfold Grammar.timeLiteral
  refine advance.bind fun _ => ?_
  split
  · exact node fun _ => rfl
  · next f =>
    obtain ⟨e, rfl⟩ | rfl := timeValue?_error h
    · exact fail e
    · exact fun _ c _ _ _ => ⟨.error .infiniteDuration c, trivial, .of_all fun _ _ => rfl⟩

theorem typedNode (type : Token) (value : Literal.Value) :
    Ends ahead n (fun _ => 0) spare fun _ => typedNode type value := by
  unfold Grammar.typedNode
  exact look (.spanFrom _) fun _ => look .sourceText fun _ => node fun _ => rfl

theorem typedLiteral : Ends true n (fun _ => 1) spare fun _ => typedLiteral := by
  unfold Grammar.typedLiteral
  refine advance.lead fun type => (expect _).next fun _ => (accept _).next fun minus => ?_
  refine peek (fun t => ?_) fun t finish => ?_
  · split
    · refine ite (fun _ => failExpecting _) fun _ => ?_
      exact advance.next fun _ => typedNode _ _
    · exact (literal t _).next fun _ => typedNode _ _
    · exact (literal t _).next fun _ => typedNode _ _
    · exact failExpecting _
    · refine ite (fun _ => failExpecting _) fun _ => ?_
      exact (literal t _).next fun _ => typedNode _ _
    · exact failExpecting _
  · simp only [plainLiteral?, finish]
    exact failExpecting _

/-! ### Variables and calls -/

theorem variableRoot : Ends false n (fun _ => 1) spare fun _ => variableRoot := by
  unfold Grammar.variableRoot
  refine peek (fun t => look .dialect fun d => ?_) fun t finish => look .dialect fun d => ?_
  · dsimp only
    split
    · exact advance.lead fun _ => node fun _ => rfl
    · exact ite (fun _ => advance.lead fun _ => node fun _ => rfl) fun _ => failInvalid _
    · refine ite (fun _ => ?_) fun _ => failInvalid _
      exact advance.lead fun _ => (expectAnyName _).next fun _ => node fun _ => rfl
    · exact advance.lead fun _ => node fun _ => rfl
    · exact failInvalid _
  · simp only [finish]
    exact failInvalid _

section Expression

variable (hx : Ends false n (fun _ => 1) spare x)
include hx

theorem variableAccess (v : Variable) :
    Ends false n passing spare fun levels => variableAccess (x levels) v := by
  unfold Grammar.variableAccess
  refine sees (look (.lexemeAt 1) fun l => ite (fun _ => ?member) fun _ => any ?_)
    (look (.lexemeAt 1) fun l => ite (fun h => ?none) fun _ => ?_)
  case member =>
    exact advance.bind fun _ => step.bind fun _ => bind (node fun _ => rfl) fun _ => done rfl
  case none => cases h
  -- what is tried when no member follows
  all_goals
    refine sees (on ?_) (off ?_)
    · exact advance.bind fun _ => (commaList hx hx.free).bind fun _ =>
        (expectClosing _ _ _).bind fun _ => bind (node fun _ => rfl) fun _ => done rfl
    · refine sees (look .dialect fun d => ite (fun _ => ?_) fun _ => done rfl)
        (look .dialect fun d => off (done rfl))
      exact advance.bind fun _ => bind (node fun _ => rfl) fun _ => done rfl

omit hx in
/-- Only behind its root does a variable hold expressions. -/
theorem variableWith (hx : ∀ m < n, Ends false m (fun _ => 1) spare x) :
    Ends false n (fun _ => 1) spare fun levels => variableWith (x levels) := by
  unfold Grammar.variableWith
  exact variableRoot.inside fun m less root =>
    repeating (fun v => variableAccess (hx m less) v) root

theorem argument : Ends false n (fun _ => 0) spare fun levels => argument (x levels) := by
  unfold Grammar.argument
  refine look .peek fun start => look (.lexemeAt 1) fun next => ite (fun _ => ?_) fun _ => ?_
  · exact step.next fun _ => step.next fun _ => hx.next fun _ => node fun _ => rfl
  refine ite (fun _ => ?_) fun _ => ?_
  · exact step.next fun _ => step.next fun _ => (variableWith hx.below).next fun _ =>
      node fun _ => rfl
  refine look (.lexemeAt 2) fun l => ite (fun _ => ?_) fun _ => ?_
  · exact step.next fun _ => step.next fun _ => step.next fun _ =>
      (variableWith hx.below).next fun _ => node fun _ => rfl
  · exact hx.next fun _ => node fun _ => rfl

theorem argumentOrGap : Ends false n (fun _ => 0) spare fun levels => argumentOrGap (x levels) := by
  unfold Grammar.argumentOrGap
  refine look (.sees _) fun _ => look (.sees _) fun _ => ite (fun _ => ?_) fun _ => argument hx
  refine look .dialect fun d => ite (fun _ => ?_) fun _ => failInvalid _
  exact look .peek fun t => node fun _ => rfl

theorem callArgs : Ends ahead n (fun _ => 1) spare fun levels => callArgs (x levels) := by
  unfold Grammar.callArgs
  refine (expect _).lead fun opener => (accept _).next fun empty =>
    ite (fun _ => done rfl) fun _ => ?_
  have args : Ends false n (fun _ => 0) spare fun levels => passes >>= fun p =>
      Grammar.listed (Pure.pure true) (Grammar.argumentOrGap (x levels)) Arg.span p 0 :=
    listed (.pure true) (argumentOrGap hx) 0
  exact args.follow fun as => (expectClosing _ opener _).next fun _ => done rfl

omit hx in
theorem notCallable (kind : SyntaxError.Kind) (callee : Variable) {α : Type} {need : α → Nat} :
    Ends ahead n need spare fun _ => (notCallable kind callee : Rule α) := by
  unfold Grammar.notCallable
  exact look .sourceText fun _ => fail _

omit hx in
theorem variableOrCall (hx : ∀ m < n, Ends false m (fun _ => 1) spare x) :
    Ends false n (fun _ => 1) spare fun levels => variableOrCall (x levels) := by
  unfold Grammar.variableOrCall
  refine (variableWith hx).inside fun m less v => ?_
  refine look (.sees _) fun call => ite (fun _ => ?_) fun _ => done rfl
  split
  · exact notCallable _ v
  · exact (callArgs (hx m less)).next fun _ => node fun _ => rfl

end Expression

/-! ### Operands -/

theorem primary (hx : ∀ m < n, Ends false m (fun _ => 1) spare x) :
    Ends false n (fun _ => 1) spare fun levels => primary (x levels) := by
  unfold Grammar.primary
  refine peek (fun t => ?_) fun t finish => ?_
  · split
    · exact literal t _
    · next value => exact timeLiteral value
    · refine ite (fun _ => ?_) fun _ => look (.lexemeAt 1) fun l => look (.lexemeAt 2) fun l' => ?_
      · exact advance.inside fun m less _ => (hx m less).next fun _ =>
          (expectClosing _ t _).next fun _ => node fun _ => rfl
      · exact ite (fun _ => typedLiteral) fun _ => ite (fun _ => any (variableOrCall hx)) fun _ =>
          failInvalid _
  · simp only [plainLiteral?, timeValue?, finish, beginsTyped, beginsVariable]
    refine off (look (.lexemeAt 1) fun l => look (.lexemeAt 2) fun l' => ?_)
    exact off (off (failInvalid _))

section Unary

variable {u p : Nat → Rule Expr}

theorem unaryBody (hu : ∀ m < n, Ends false m (fun _ => 1) spare u)
    (hp : ∀ m < n, Ends false m (fun _ => 1) spare p) :
    Ends false n (fun _ => 1) spare fun levels => unaryBody (u levels) (p levels) := by
  have operands (m : Nat) (less : m < n) (least : Nat) :
      Ends false m (fun _ => 1) spare fun levels =>
        Grammar.binaryFrom (u levels) (p levels) least :=
    binaryFrom (hu m less) (fun k lower => hp k (Nat.lt_trans lower less)) least
  have operand : Ends false n (fun _ => 1) spare fun levels =>
      Grammar.primary (Grammar.binaryFrom (u levels) (p levels) 1) :=
    primary fun m less => operands m less 1
  unfold Grammar.unaryBody
  refine peek (fun t => ?_) fun t finish => ?_
  · split
    · exact advance.inside fun m less _ => (operands m less _).next fun _ => node fun _ => rfl
    · exact advance.inside fun m less _ => (hu m less).next fun _ => node fun _ => rfl
    · exact advance.inside fun m less _ => (hu m less).next fun _ => done rfl
    · exact any operand
  · simp only [finish]
    exact operand

end Unary

/-- An operand, with signs or without, and what stands to the right of `**`. -/
theorem operands (n : Nat) :
    Ends false n (fun _ => 1) spare unary ∧ Ends false n (fun _ => 1) spare powerOperand := by
  induction n using Nat.strongRecOn with
  | ind n ih =>
    have left : Ends false n (fun _ => 1) spare unary :=
      deeper (fun levels => by rw [unary])
        (unaryBody (fun m less => (ih m less).1) fun m less => (ih m less).2)
    exact ⟨left, deeper (fun levels => by rw [powerOperand])
      (binaryFrom left (fun m less => (ih m less).2) _)⟩

theorem expression (n : Nat) : Ends false n (fun _ => 1) spare expression :=
  binaryFrom (operands n).1 (operands n).2.below 1

/-! ### Initial values -/

section Initializer

variable {i : Nat → Rule Expr}

theorem arrayElement (hi : Ends false n (fun _ => 1) spare i) :
    Ends false n (fun _ => 0) spare fun levels => arrayElement (i levels) := by
  unfold Grammar.arrayElement
  refine look .peek fun t => ?_
  split
  · refine look (.lexemeAt 1) fun l => ite (fun _ => ?_) fun _ => hi.free
    refine step.next fun _ => step.next fun _ => look (.sees _) fun bare => ?_
    exact choose (Ends.pure none) hi.map fun value => (expect _).next fun _ =>
      node fun _ => rfl
  · exact hi.free

theorem arrayInit (hi : ∀ m < n, Ends false m (fun _ => 1) spare i) :
    Ends true n (fun _ => 1) spare fun levels => arrayInit (i levels) := by
  unfold Grammar.arrayInit
  refine advance.inside fun m less opener => ?_
  have elements : Ends false m (fun _ => 0) spare fun levels => passes >>= fun p =>
      Grammar.listed (Grammar.sees Mark.rightBracket >>= fun b => Pure.pure !b)
        (Grammar.arrayElement (i levels)) Expr.span p 0 :=
    listed ((Looks.sees _).bind fun _ => .pure _) (arrayElement (hi m less)) 0
  exact elements.follow fun es => (expectClosing _ opener _).next fun _ => node fun _ => rfl

theorem fieldInit (hi : Ends false n (fun _ => 1) spare i) :
    Ends false n (fun _ => 0) spare fun levels => fieldInit (i levels) := by
  unfold Grammar.fieldInit
  exact (expectName _).next fun name => (expect _).next fun _ => hi.next fun _ => node fun _ => rfl

theorem structInit (hi : ∀ m < n, Ends false m (fun _ => 1) spare i) :
    Ends true n (fun _ => 1) spare fun levels => structInit (i levels) := by
  unfold Grammar.structInit
  refine advance.inside fun m less opener => ?_
  have fields : Ends false m (fun _ => 0) spare fun levels => passes >>= fun p =>
      Grammar.listed (Pure.pure true) (Grammar.fieldInit (i levels)) Arg.span p 0 :=
    listed (.pure true) (fieldInit (hi m less)) 0
  exact fields.follow fun fs => (expectClosing _ opener _).next fun _ => node fun _ => rfl

end Initializer

theorem initializer (n : Nat) : Ends false n (fun _ => 1) spare initializer := by
  induction n using Nat.strongRecOn with
  | ind n ih =>
    refine deeper (fun levels => by rw [Grammar.initializer]) ?_
    refine sees (arrayInit ih) ?_
    refine sees (look (.lexemeAt 1) fun l => look (.lexemeAt 2) fun l' => ?_)
      (look (.lexemeAt 1) fun l => look (.lexemeAt 2) fun l' => ?_)
    · exact ite (fun _ => structInit ih) fun _ => any (expression n)
    · exact off (expression n)

end Plc.Grammar.Ends
