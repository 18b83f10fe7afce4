/-
Operators take the operands that their precedence asks for.

An expression is grouped when no operand in it would need parentheses: what stands beside an
operator binds more tightly, or as tightly on the side to which the operator groups.  Such a tree is
the only one of its words.

* `Expr.IsGrouped` — every operator of the tree takes its operands;
* `climb_grouped` — operators read in turn take the expression read so far;
* `expression_grouped` — an expression that is read is grouped.
-/
import Plc.Printer
import Plc.Proofs.Grammar.Ahead

namespace Plc

open Grammar

/-! ### Grouped trees -/

namespace Expr

/-- The operator of an operation with two operands. -/
def operator? : Expr → Option BinaryOp
  | .binary _ op _ _ => some op
  | _ => none

theorem operator?_withSpan (s : Span) (e : Expr) : (e.withSpan s).operator? = e.operator? := by
  cases e <;> rfl

theorem isNot_withSpan (s : Span) (e : Expr) : (e.withSpan s).isNot = e.isNot := by
  cases e with
  | unary _ op x => cases op <;> rfl
  | _ => rfl

end Expr

namespace BinaryOp

/-- The operator takes the expression to its left without parentheses.  Operators group to the
left, `**` aside; `NOT` stands only before operators on truth values. -/
def TakesLeft (op : BinaryOp) (l : Expr) : Prop :=
  (l.isNot = true → op.isLogical = true) ∧
    if op = .power then l.operator? = none else ∀ o ∈ l.operator?, op.precedence ≤ o.precedence

/-- The operator takes the expression to its right without parentheses. -/
def TakesRight (op : BinaryOp) (r : Expr) : Prop :=
  if op = .power then ∀ o ∈ r.operator?, o = .power
  else ∀ o ∈ r.operator?, op.precedence < o.precedence

theorem precedence_lt (op : BinaryOp) : op.precedence < 8 := by
  cases op <;> decide

theorem eq_power {op : BinaryOp} (h : 7 ≤ op.precedence) : op = .power := by
  cases op <;> first | rfl | exact absurd h (by decide)

theorem takesRight {op : BinaryOp} {r : Expr}
    (h : ∀ o ∈ r.operator?, op.rightPrecedence ≤ o.precedence) : op.TakesRight r := by
  unfold TakesRight
  unfold rightPrecedence at h
  split
  · next power =>
    intro o ho
    have high := h o ho
    rw [if_pos power, power] at high
    exact eq_power high
  · next other =>
    intro o ho
    have high := h o ho
    rwa [if_neg other] at high

/-- An operation is taken by an operator that its right operand left standing. -/
theorem takesLeft_binary {op next : BinaryOp} {s : Span} {l r : Expr}
    (h : next.precedence < op.rightPrecedence) : next.TakesLeft (.binary s op l r) := by
  unfold rightPrecedence at h
  refine ⟨nofun, ?_⟩
  split
  · next power =>
    rw [power] at h
    split at h
    · next same =>
      rw [same] at h
      exact absurd h (Nat.lt_irrefl _)
    · next other => exact absurd (eq_power (Nat.le_of_lt_succ h)) other
  · rintro o ⟨⟩
    split at h <;> omega

/-- Any operator takes an expression without operators, when `NOT` is left to the loose ones. -/
theorem takesLeft_of_none {op : BinaryOp} {l : Expr} (none : l.operator? = none)
    (h : l.isNot = true → op.precedence < BinaryOp.eq.precedence) : op.TakesLeft l := by
  refine ⟨fun negation => ?_, ?_⟩
  · have low := h negation
    cases op <;> first | rfl | exact absurd low (by decide)
  · split
    · exact none
    · rw [none]
      nofun

end BinaryOp

/-- The operator takes the expression without parentheses. -/
def UnaryOp.Takes : UnaryOp → Expr → Prop
  | .neg, x => x.operator? = none
  | .not, x => ∀ o ∈ x.operator?, BinaryOp.eq.precedence ≤ o.precedence

mutual

/-- Every operator in the indices takes its operands. -/
def Variable.IsGrouped : Variable → Prop
  | .named _ _ _ | .address _ _ _ => True
  | .member _ b _ => b.IsGrouped
  | .element _ b is => b.IsGrouped ∧ Expr.IsGroupedAll is
  | .deref _ b => b.IsGrouped

/-- Every operator in the expression takes its operands. -/
def Expr.IsGrouped : Expr → Prop
  | .literal _ _ => True
  | .variable v => v.IsGrouped
  | .unary _ op x => op.Takes x ∧ x.IsGrouped
  | .binary _ op l r => op.TakesLeft l ∧ op.TakesRight r ∧ l.IsGrouped ∧ r.IsGrouped
  | .paren _ x => x.IsGrouped
  | .call _ _ args => Arg.IsGroupedAll args
  | .repeated _ _ none => True
  | .repeated _ _ (some x) => x.IsGrouped
  | .arrayInit _ es => Expr.IsGroupedAll es
  | .structInit _ fs => Arg.IsGroupedAll fs

/-- Every operator in the argument takes its operands. -/
def Arg.IsGrouped : Arg → Prop
  | .positional _ x | .named _ _ x => x.IsGrouped
  | .output _ _ v _ => v.IsGrouped
  | .inferred _ => True

/-- Every expression of the list is grouped. -/
def Expr.IsGroupedAll : List Expr → Prop
  | [] => True
  | x :: xs => x.IsGrouped ∧ Expr.IsGroupedAll xs

/-- Every argument of the list is grouped. -/
def Arg.IsGroupedAll : List Arg → Prop
  | [] => True
  | x :: xs => x.IsGrouped ∧ Arg.IsGroupedAll xs

end

theorem Expr.isGroupedAll_iff {xs : List Expr} : IsGroupedAll xs ↔ ∀ x ∈ xs, x.IsGrouped := by
  induction xs with
  | nil => simp [IsGroupedAll]
  | cons x xs ih => simp [IsGroupedAll, ih]

theorem Arg.isGroupedAll_iff {xs : List Arg} : IsGroupedAll xs ↔ ∀ x ∈ xs, x.IsGrouped := by
  induction xs with
  | nil => simp [IsGroupedAll]
  | cons x xs ih => simp [IsGroupedAll, ih]

theorem Expr.isGrouped_withSpan (s : Span) (e : Expr) :
    (e.withSpan s).IsGrouped ↔ e.IsGrouped := by
  cases e with
  | «variable» v => cases v <;> rfl
  | repeated _ n x => cases x <;> rfl
  | _ => rfl

namespace Grammar

/-! ### Results of rules -/

/-- Whatever the rule gives has the property. -/
def Returns {α : Type} (r : Rule α) (φ : α → Prop) : Prop :=
  Triple (fun _ _ => True) r fun a _ _ => φ a

namespace Returns

variable {α β γ : Type} {r : Rule α} {f : α → Rule β} {φ : α → Prop} {ψ : β → Prop}

theorem bind (hr : Returns r φ) (hf : ∀ a, φ a → Returns (f a) ψ) : Returns (r >>= f) ψ :=
  Triple.bind hr fun a => .given (fun _ _ h => h) fun ha => (hf a ha).imp fun _ _ _ => trivial

/-- The result of the first rule does not matter. -/
theorem after (hf : ∀ a, Returns (f a) ψ) : Returns (r >>= f) ψ :=
  Triple.bind (R := fun _ _ _ => True) (fun _ _ _ _ _ _ => trivial) hf

theorem pure {a : α} (h : φ a) : Returns (pure a) φ :=
  Triple.pure fun _ _ _ => h

theorem ite {c : Prop} [Decidable c] {r' : Rule α} (hr : c → Returns r φ) (hr' : ¬c → Returns r' φ) :
    Returns (if c then r else r') φ :=
  Triple.ite hr hr'

theorem node (start : Span) {build : Span → α} (h : ∀ s, φ (build s)) :
    Returns (Grammar.node start build) φ :=
  Stable.node (fun _ _ _ _ _ _ => trivial) start fun s _ _ _ => h s

/-- Another item of a list has the property. -/
theorem concat (h : Returns r φ) (as : List α) :
    Triple (fun _ _ => ∀ a ∈ as, φ a) r fun a _ _ => ∀ b ∈ as ++ [a], φ b := by
  refine .given (fun _ _ all => all) fun all => (h.imp fun _ _ _ => trivial).post ?_
  intro a s c ha b hb
  obtain hb | hb := List.mem_append.1 hb
  · exact all b hb
  · exact List.mem_singleton.1 hb ▸ ha

theorem comma (as : List α) : Triple (fun _ _ => ∀ a ∈ as, φ a) (accept Mark.comma)
    fun b => cond b (fun _ _ => ∀ a ∈ as, φ a) fun _ _ => ∀ a ∈ as, φ a := by
  intro s c b c' all _
  cases b <;> exact all

theorem commaList {spanOf : α → Span} (h : Returns r φ) :
    Returns (commaList r spanOf) fun as => ∀ a ∈ as, φ a :=
  Triple.imp (Triple.commaList (I := fun as _ _ => ∀ a ∈ as, φ a) comma h.concat) fun _ _ _ => nofun

theorem listed {spanOf : α → Span} (h : Returns r φ) (n size : Nat) :
    Returns (listed (return true) r spanOf n size) fun as => ∀ a ∈ as, φ a := by
  refine Triple.imp (Triple.listed (I := fun as _ _ => ∀ a ∈ as, φ a) ?_ comma ?_ h.concat n size [])
    fun _ _ _ => nofun
  · exact fun as => Triple.pure (a := true) fun _ _ all => all
  · exact fun as _ _ => Triple.checkSize _ _

end Returns

/-! ### Operators in turn -/

/-- The operator that comes next. -/
def nextOperator? (s : Setting) (c : Cursor) : Option BinaryOp :=
  BinaryOp.ofLexeme? (s.ahead c 0).lexeme

theorem nextOperator?_congr {s : Setting} {c c' : Cursor} (rest : c'.rest = c.rest) :
    nextOperator? s c' = nextOperator? s c := by
  rw [nextOperator?, nextOperator?, Setting.ahead, Setting.ahead, rest]

/-- An operand was read; after `NOT` no operator comes that its operand would have taken. -/
def Operand (e : Expr) : Assertion := fun s c =>
  e.IsGrouped ∧ e.operator? = none ∧
    (e.isNot = true → ∀ op ∈ nextOperator? s c, op.precedence < BinaryOp.eq.precedence)

/-- Operands joined by operators of at least the given precedence were read.  The operator that
comes next takes them to its left. -/
def Operands (least : Nat) (e : Expr) : Assertion := fun s c =>
  e.IsGrouped ∧ (∀ o ∈ e.operator?, least ≤ o.precedence) ∧
    ∀ op ∈ nextOperator? s c, op.TakesLeft e

/-- All operands joined by operators of at least the given precedence were read. -/
def AllOperands (least : Nat) (e : Expr) : Assertion := fun s c =>
  Operands least e s c ∧ ∀ op ∈ nextOperator? s c, op.precedence < least

theorem operand_stable (e : Expr) : Stable (Operand e) := by
  intro s c c' rest _ h
  rwa [Operand, nextOperator?_congr rest]

theorem operands_stable (least : Nat) (e : Expr) : Stable (Operands least e) := by
  intro s c c' rest _ h
  rwa [Operands, nextOperator?_congr rest]

theorem allOperands_stable (least : Nat) (e : Expr) : Stable (AllOperands least e) := by
  intro s c c' rest stop h
  exact ⟨operands_stable least e rest stop h.1, nextOperator?_congr (s := s) rest ▸ h.2⟩

theorem operatorFrom_grouped (least : Nat) (e : Expr) :
    Triple (Operands least e) (operatorFrom least e) (Sum.elim (AllOperands least)
      fun op _ _ => e.IsGrouped ∧ op.TakesLeft e ∧ least ≤ op.precedence) := by
  refine Triple.lexeme.bind fun l => ?_
  split
  · next op known =>
    have seen {s : Setting} {c : Cursor} (h : (s.ahead c 0).lexeme = l) :
        nextOperator? s c = some op := by rw [nextOperator?, h, known]
    split
    · next high =>
      exact .pure fun s c h => ⟨h.1.1, h.1.2.2 op (seen h.2), high⟩
    · next low =>
      refine .pure fun s c h => ⟨h.1, fun o ho => ?_⟩
      obtain rfl := Option.some.inj ((seen h.2).symm.trans ho)
      exact Nat.lt_of_not_le low
  · next unknown =>
    refine .pure fun s c h => ⟨h.1, fun o ho => ?_⟩
    rw [nextOperator?, h.2, unknown] at ho
    cases ho

theorem operation_grouped {right : BinaryOp → Rule Expr} {least : Nat} (left : Expr) (op : BinaryOp)
    (h : least ≤ op.precedence →
      Triple (fun _ _ => True) (right op) (AllOperands op.rightPrecedence)) :
    Triple (fun _ _ => left.IsGrouped ∧ op.TakesLeft left ∧ least ≤ op.precedence)
      (operation right left op) (Sum.elim (AllOperands least) (Operands least)) := by
  refine .given (fun _ _ h => h) fun ⟨grouped, taken, high⟩ => ?_
  refine Triple.bind (R := fun _ _ _ => True) (fun _ _ _ _ _ _ => trivial) fun _ => ?_
  refine (h high).bind fun r => ?_
  refine Triple.bind (R := Operands least) ?_ fun e => .pure fun _ _ h => h
  refine (allOperands_stable _ r).node _ fun s₀ s c h => ⟨⟨taken, ?_, grouped, h.1.1⟩, ?_, ?_⟩
  · exact BinaryOp.takesRight h.1.2.1
  · rintro o ⟨⟩
    exact high
  · exact fun next hnext => BinaryOp.takesLeft_binary (h.2 next hnext)

variable {u p e : Rule Expr}

/-- Operators read in turn take the expression read so far. -/
theorem climb_grouped (hu : Triple (fun _ _ => True) u Operand)
    (hp : Triple (fun _ _ => True) p (AllOperands BinaryOp.power.precedence)) (tighter least : Nat)
    (room : 8 ≤ tighter + least) :
    Triple (fun _ _ => True) (climb u p tighter least) (AllOperands least) := by
  have first (least : Nat) : Triple (fun _ _ => True) u (Operands least) := by
    refine hu.post fun e s c ⟨grouped, bare, negation⟩ => ⟨grouped, by rw [bare]; nofun, ?_⟩
    exact fun op hop => BinaryOp.takesLeft_of_none bare fun h => negation h op hop
  induction tighter generalizing least with
  | zero =>
    -- no operator binds as tightly as asked for
    refine (first least).post fun e s c h => ⟨h, fun op _ => ?_⟩
    have := op.precedence_lt
    omega
  | succ tighter ih =>
    refine (first least).bind fun e => Triple.passes.bind fun n => ?_
    refine Triple.repeating (operatorFrom_grouped least) (fun left op => ?_) n e
    refine operation_grouped left op fun high => ?_
    unfold BinaryOp.rightPrecedence
    split
    · next power =>
      rw [power]
      exact hp
    · exact ih _ (by omega)

theorem binaryFrom_grouped (hu : Triple (fun _ _ => True) u Operand)
    (hp : Triple (fun _ _ => True) p (AllOperands BinaryOp.power.precedence)) (least : Nat) :
    Triple (fun _ _ => True) (binaryFrom u p least) (AllOperands least) :=
  climb_grouped hu hp _ _ (by omega)

/-! ### Operands -/

theorem variableRoot_grouped : Returns variableRoot Variable.IsGrouped := by
  refine .after fun t => .after fun d => ?_
  split
  · exact .after fun _ => .node _ fun _ => trivial
  · exact .ite (fun _ => .after fun _ => .node _ fun _ => trivial) fun _ => .failInvalid _
  · refine .ite (fun _ => .after fun _ => .after fun _ => .node _ fun _ => trivial) fun _ => ?_
    exact .failInvalid _
  · exact .after fun _ => .node _ fun _ => trivial
  · exact .failInvalid _

theorem variableAccess_grouped (he : Returns e Expr.IsGrouped) {v : Variable} (hv : v.IsGrouped) :
    Returns (variableAccess e v) (Sum.elim Variable.IsGrouped Variable.IsGrouped) := by
  have given {r : Rule Variable} (hr : Returns r Variable.IsGrouped) :
      Returns (do return .inr (← r)) (Sum.elim Variable.IsGrouped Variable.IsGrouped) :=
    hr.bind fun _ h => .pure h
  refine .after fun dot => .after fun member => .ite (fun _ => ?_) fun _ => ?_
  · exact .after fun _ => .after fun _ => given (.node _ fun _ => hv)
  refine .after fun bracket => .ite (fun _ => ?_) fun _ => ?_
  · refine .after fun _ => (Returns.commaList he).bind fun is his => .after fun _ => ?_
    exact given (.node _ fun _ => ⟨hv, Expr.isGroupedAll_iff.2 his⟩)
  refine .after fun caret => .after fun d => .ite (fun _ => ?_) fun _ => .pure hv
  exact .after fun _ => given (.node _ fun _ => hv)

theorem variableWith_grouped (he : Returns e Expr.IsGrouped) :
    Returns (variableWith e) Variable.IsGrouped := by
  refine variableRoot_grouped.bind fun root hroot => .after fun n => ?_
  refine Triple.imp (Triple.repeating (I := fun v _ _ => v.IsGrouped) (J := fun v _ _ _ => v.IsGrouped)
    (fun v => Triple.pure (a := Sum.inr ()) fun _ _ h => h) (fun v _ => ?_) n root) fun _ _ _ => hroot
  refine .given (fun _ _ h => h) fun hv => ?_
  refine Triple.post ((variableAccess_grouped he hv).imp fun _ _ _ => trivial) fun y s c h => ?_
  cases y <;> exact h

theorem argument_grouped (he : Returns e Expr.IsGrouped) : Returns (argument e) Arg.IsGrouped := by
  have hv := variableWith_grouped he
  refine .after fun start => .after fun next => .ite (fun _ => ?_) fun _ => .ite (fun _ => ?_) fun _ => ?_
  · exact .after fun _ => .after fun _ => he.bind fun x hx => .node _ fun _ => hx
  · exact .after fun _ => .after fun _ => hv.bind fun v h => .node _ fun _ => h
  refine .after fun third => .ite (fun _ => ?_) fun _ => he.bind fun x hx => .node _ fun _ => hx
  exact .after fun _ => .after fun _ => .after fun _ => hv.bind fun v h => .node _ fun _ => h

theorem argumentOrGap_grouped (he : Returns e Expr.IsGrouped) :
    Returns (argumentOrGap e) Arg.IsGrouped := by
  refine .after fun comma => .after fun close => .ite (fun _ => ?_) fun _ => argument_grouped he
  refine .after fun d => .ite (fun _ => ?_) fun _ => .failInvalid _
  exact .after fun t => .node _ fun _ => trivial

theorem callArgs_grouped (he : Returns e Expr.IsGrouped) :
    Returns (callArgs e) Arg.IsGroupedAll := by
  refine .after fun opener => .after fun empty => .ite (fun _ => .pure trivial) fun _ => ?_
  refine .after fun n => ((argumentOrGap_grouped he).listed n 0).bind fun args hargs => ?_
  exact .after fun _ => .pure (Arg.isGroupedAll_iff.2 hargs)

/-- An operand that `NOT` does not open. -/
def IsPrimary (e : Expr) : Prop :=
  e.IsGrouped ∧ e.operator? = none ∧ e.isNot = false

theorem literal_grouped (t : Token) (l : Literal) : Returns (literal t l) IsPrimary := by
  refine .after fun _ => ?_
  split
  · exact .after fun _ => .node _ fun _ => ⟨trivial, rfl, rfl⟩
  · exact .node _ fun _ => ⟨trivial, rfl, rfl⟩

theorem typedLiteral_grouped : Returns typedLiteral IsPrimary := by
  have typed (type : Token) (v : Literal.Value) : Returns (typedNode type v) IsPrimary :=
    .after fun _ => .after fun _ => .node _ fun _ => ⟨trivial, rfl, rfl⟩
  refine .after fun type => .after fun _ => .after fun minus => .after fun t => ?_
  split
  · exact .ite (fun _ => .failExpecting _) fun _ => .after fun _ => typed _ _
  · exact .after fun _ => typed _ _
  · exact .after fun _ => typed _ _
  · exact .failExpecting _
  · exact .ite (fun _ => .failExpecting _) fun _ => .after fun _ => typed _ _
  · exact .failExpecting _

theorem primary_grouped (he : Returns e Expr.IsGrouped) : Returns (primary e) IsPrimary := by
  refine .after fun t => ?_
  split
  · exact literal_grouped _ _
  · refine .after fun _ => ?_
    split
    · exact .node _ fun _ => ⟨trivial, rfl, rfl⟩
    · exact .throw _
  refine .ite (fun _ => ?_) fun _ => ?_
  · exact .after fun _ => he.bind fun x hx => .after fun _ => .node _ fun _ => ⟨hx, rfl, rfl⟩
  refine .after fun hash => .after fun value => .ite (fun _ => typedLiteral_grouped) fun _ => ?_
  refine .ite (fun _ => ?_) fun _ => .failInvalid _
  refine (variableWith_grouped he).bind fun v hv => .after fun call => .ite (fun _ => ?_) fun _ => ?_
  · split
    · exact .after fun _ => .fail _
    · exact (callArgs_grouped he).bind fun args hargs => .node _ fun _ => ⟨hargs, rfl, rfl⟩
  · exact .pure ⟨hv, rfl, rfl⟩

theorem unaryBody_grouped (hu : Triple (fun _ _ => True) u Operand)
    (hp : Triple (fun _ _ => True) p (AllOperands BinaryOp.power.precedence)) :
    Triple (fun _ _ => True) (unaryBody u p) Operand := by
  have whole : Returns (binaryFrom u p 1) Expr.IsGrouped :=
    (binaryFrom_grouped hu hp 1).post fun e s c h => h.1.1
  refine Triple.bind (R := fun _ _ _ => True) (fun _ _ _ _ _ _ => trivial) fun t => ?_
  split
  · refine Triple.bind (R := fun _ _ _ => True) (fun _ _ _ _ _ _ => trivial) fun _ => ?_
    refine (binaryFrom_grouped hu hp _).bind fun y => (allOperands_stable _ y).node _ ?_
    exact fun s₀ s c h => ⟨⟨h.1.2.1, h.1.1⟩, rfl, fun _ => h.2⟩
  · refine Triple.bind (R := fun _ _ _ => True) (fun _ _ _ _ _ _ => trivial) fun _ => ?_
    refine hu.bind fun y => (operand_stable y).node _ fun s₀ s c h => ?_
    exact ⟨⟨h.2.1, h.1⟩, rfl, nofun⟩
  · refine Triple.bind (R := fun _ _ _ => True) (fun _ _ _ _ _ _ => trivial) fun _ => ?_
    refine hu.bind fun y => .pure fun s c ⟨grouped, bare, negation⟩ => ⟨?_, ?_, ?_⟩
    · exact (Expr.isGrouped_withSpan _ y).2 grouped
    · rw [Expr.operator?_withSpan, bare]
    · rwa [Expr.isNot_withSpan]
  · refine (primary_grouped whole).post fun y s c ⟨grouped, bare, negation⟩ => ⟨grouped, bare, ?_⟩
    rw [negation]
    nofun

/-- Operands are grouped, whatever is open around them. -/
theorem operands_grouped (levels : Nat) :
    Triple (fun _ _ => True) (unary levels) Operand ∧
      Triple (fun _ _ => True) (powerOperand levels) (AllOperands BinaryOp.power.precedence) := by
  induction levels with
  | zero => exact ⟨.tooDeep, .tooDeep⟩
  | succ levels ih =>
    obtain ⟨hu, hp⟩ := ih
    have stable : Stable fun _ _ => True := fun _ _ _ _ _ _ => trivial
    exact ⟨stable.nested (unaryBody_grouped hu hp) operand_stable,
      stable.nested (binaryFrom_grouped hu hp _) (allOperands_stable _)⟩

/-- An expression that is read is grouped. -/
theorem expression_grouped (levels : Nat) : Returns (expression levels) Expr.IsGrouped :=
  (binaryFrom_grouped (operands_grouped levels).1 (operands_grouped levels).2 1).post
    fun _ _ _ h => h.1.1

end Grammar

end Plc
