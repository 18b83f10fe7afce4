/-
Expressions read in two texts.

Each rule for expressions that ends inside a common stretch of two texts gives the same tree in both,
further on in the other.

* `typedNode_idle` — the one rule that looks at the text itself;
* `expression_tracks` — the rule that other rules use.
-/
import Plc.Proofs.Grammar.ExprCongruence
import Plc.Proofs.Moved.Tracks

namespace Plc.Grammar

variable {x : Transplant}

/-- The rules give the same tree, further on on the other side. -/
abbrev MovesExpr (x : Transplant) (e e' : Rule Expr) : Prop :=
  Tracks x true false (Expr.moved x.shift) e e'

variable {u u' p p' e e' : Rule Expr}

/-! ### Operators -/

theorem operatorFrom_tracks (least : Nat) (left : Expr) :
    Tracks x false false (Sum.map (Expr.moved x.shift) id) (operatorFrom least left)
      (operatorFrom least (left.moved x.shift)) := by
  refine .lexeme fun l => ?_
  split
  · split
    · exact .pure
    · exact .pure
  · exact .pure

theorem operation_tracks {right right' : BinaryOp → Rule Expr}
    (hr : ∀ op, MovesExpr x (right op) (right' op)) (left : Expr) (op : BinaryOp) :
    Tracks x false false (Sum.map (Expr.moved x.shift) (Expr.moved x.shift))
      (operation right left op) (operation right' (left.moved x.shift) op) := by
  refine Tracks.advance.bind fun _ => (hr op).level.bind fun a => ?_
  refine Tracks.bind (f := Expr.moved x.shift) (.node (left.span_moved _) fun s => ?_)
    fun b => .pure
  simp only [Expr.moved]

theorem climb_tracks (hu : MovesExpr x u u') (hp : MovesExpr x p p') (tighter least : Nat) :
    MovesExpr x (climb u p tighter least) (climb u' p' tighter least) := by
  -- Induction on the rungs that are left; the loop carries the operand built so far.
  induction tighter generalizing least with
  | zero => exact hu
  | succ tighter ih =>
    refine Tracks.bind hu fun first => Tracks.passes fun n n' => ?_
    exact .repeating (fun a => operatorFrom_tracks least a)
      (fun a op => operation_tracks (fun op => .ite hp (ih _)) a op) n n' first

theorem binaryFrom_tracks (hu : MovesExpr x u u') (hp : MovesExpr x p p') (least : Nat) :
    MovesExpr x (binaryFrom u p least) (binaryFrom u' p' least) :=
  climb_tracks hu hp _ _

/-! ### Literals -/

theorem literal_tracks (t : Token) (l : Literal) :
    MovesExpr x (literal t l) (literal (t.moved x.shift) l) := by
  refine Tracks.advance.bind fun _ => ?_
  cases stringLength? l.value with
  | some n => exact (Idle.checkLimit _ _ _ _ _).tracks.bind fun _ => .node rfl fun _ => rfl
  | none => exact .node rfl fun _ => rfl

/-- What a time or a date means does not depend on its place. -/
theorem timeValue?_moved (k : Nat) (t : Token) :
    (timeValue? t = none ∧ timeValue? (t.moved k) = none) ∨
      (∃ v, timeValue? t = some (.ok v) ∧ timeValue? (t.moved k) = some (.ok v)) ∨
      ∃ f f', timeValue? t = some (.error f) ∧ timeValue? (t.moved k) = some (.error f') := by
  obtain ⟨l, text, span⟩ := t
  cases l with
  | duration p =>
    unfold timeValue?
    dsimp only [Token.moved]
    cases Literal.Duration.nanoseconds p.toList with
    | ok n => exact .inr (.inl ⟨_, rfl, rfl⟩)
    | error e => cases e <;> exact .inr (.inr ⟨_, _, rfl, rfl⟩)
  | date p | timeOfDay p | dateAndTime p =>
    unfold timeValue?
    dsimp only [Token.moved]
    split
    · exact .inr (.inl ⟨_, rfl, rfl⟩)
    · exact .inr (.inr ⟨_, _, rfl, rfl⟩)
  | _ => exact .inl ⟨rfl, rfl⟩

theorem timeLiteral_tracks (t : Token) (v : Literal.Value) :
    MovesExpr x (timeLiteral t (.ok v)) (timeLiteral (t.moved x.shift) (.ok v)) := by
  refine Tracks.advance.bind fun _ => ?_
  dsimp only
  exact .node rfl fun _ => rfl

theorem timeLiteral_fails (t : Token) (f : Fault) : Fails (timeLiteral t (.error f)) :=
  Triple.bind_fails fun _ => Triple.throw f

/-- The characters from a token of the stretch to the last token read are the same in both texts. -/
theorem Idle.written {α β : Type} {f : α → β} {t : Token} (holds : x.Holds t)
    {k : List Char → Rule α} {k' : List Char → Rule β} (hk : ∀ cs, Idle x f (k cs) (k' cs)) :
    Idle x f
      (Grammar.spanFrom t.span >>= fun s => sourceText >>= fun source => k (s.text source))
      (Grammar.spanFrom (t.moved x.shift).span >>= fun s => sourceText >>= fun source =>
        k' (s.text source)) := by
  intro c c' a d run
  obtain ⟨begins, ends⟩ := holds
  obtain ⟨same, onward⟩ :=
    hk (Text.slice x.one.source t.span.start (max c.lastStop t.span.stop)) c c' a d run
  refine ⟨same, fun side => ?_⟩
  obtain ⟨place, bound⟩ := side.place rfl
  show UnlessLimited _ (k' (Text.slice x.other.source (t.span.start + x.shift)
    (max c'.lastStop (t.span.stop + x.shift))) x.other c')
  rw [place, Nat.add_max_add_right, x.slice _ _ begins (Nat.max_le.2 ⟨bound, ends⟩)]
  exact onward side

theorem typedNode_idle {type : Token} (holds : x.Holds type) (value : Literal.Value) :
    Idle x (Expr.moved x.shift) (typedNode type value) (typedNode (type.moved x.shift) value) := by
  have built (cs : List Char) : Idle x (Expr.moved x.shift)
      (node type.span fun s => Expr.literal s ⟨value, String.ofList cs, some type.text⟩)
      (node (type.moved x.shift).span fun s =>
        Expr.literal s ⟨value, String.ofList cs, some type.text⟩) := .node rfl fun _ => rfl
  exact .written holds built

theorem typedLiteral_tracks : MovesExpr x typedLiteral typedLiteral := by
  intro c c'
  refine .advanceHeld (fun a d run => .of_leads ReadsOver.course.congruence.typedLiteral_rel run)
    fun holds => ?_
  generalize x.one.ahead c 0 = type at holds
  have typed (value : Literal.Value) := (typedNode_idle holds value).tracks
  refine (Tracks.expect _).bind fun _ => (Tracks.accept _).bind fun minus => Tracks.peek fun t => ?_
  -- A plain literal is made of the word alone; so the cases on it are those of one token.
  rw [show plainLiteral? (t.moved x.shift) = plainLiteral? t from rfl]
  dsimp only [Token.moved]
  split
  · exact .ite .failExpecting (Tracks.advance.bind fun _ => typed _)
  · exact (literal_tracks _ _).level.bind fun _ => typed _
  · exact (literal_tracks _ _).level.bind fun _ => typed _
  · exact .failExpecting
  · exact .ite .failExpecting ((literal_tracks _ _).level.bind fun _ => typed _)
  · exact .failExpecting

/-! ### Variables and calls -/

theorem variableRoot_tracks :
    Tracks x true false (Variable.moved x.shift) variableRoot variableRoot := by
  refine Tracks.peek fun t => Tracks.dialect fun d => ?_
  dsimp only [Token.moved]
  split
  · exact Tracks.advance.bind fun _ => .node rfl fun _ => rfl
  · exact .ite (Tracks.advance.bind fun _ => .node rfl fun _ => rfl) .failInvalid
  · refine .ite (Tracks.advance.bind fun _ => ?_) .failInvalid
    exact (Tracks.expectAnyName _).bind fun name => .node rfl fun _ => rfl
  · exact Tracks.advance.bind fun _ => .node rfl fun _ => rfl
  · exact .failInvalid

theorem variableAccess_tracks (he : MovesExpr x e e') (v : Variable) :
    Tracks x false false (Sum.map (Variable.moved x.shift) (Variable.moved x.shift))
      (variableAccess e v) (variableAccess e' (v.moved x.shift)) := by
  have access {start : Span} {build build' : Span → Variable} (hs : start = v.span)
      (hb : ∀ s, build' (s.moved x.shift) = (build s).moved x.shift) :
      Tracks x false false (Sum.map (Variable.moved x.shift) (Variable.moved x.shift))
        (node start build >>= fun w => (pure (.inr w) : Rule (Variable ⊕ Variable)))
        (node (v.moved x.shift).span build' >>= fun w => pure (.inr w)) := by
    subst hs
    refine Tracks.bind (f := Variable.moved x.shift) (.node (v.span_moved _) hb) fun w => .pure
  refine fun c c' => .sees _ (.lexemeAt 1 fun next clear => ?_)
  -- What comes after a point is the same on both sides, since a point closes no statement.
  have same : ((x.one.ahead c 0).lexeme.is Mark.dot && isMemberName next) =
      ((x.one.ahead c 0).lexeme.is Mark.dot && isMemberName (x.one.ahead c 1).lexeme) := by
    cases dot : (x.one.ahead c 0).lexeme.is Mark.dot with
    | false => rfl
    | true =>
      rw [clear fun m hm => ?_]
      obtain rfl := Nat.lt_one_iff.1 hm
      rw [Terminal.is_lexeme dot]
      rfl
  rw [same]
  refine .ite (fun _ => ?_) fun _ => ?_
  · refine (Tracks.advance.bind fun _ => Tracks.advance.bind fun member => ?_) c c'
    exact access rfl fun s => rfl
  refine (Tracks.sees _ fun bracket => .ite ?_ (Tracks.sees _ fun caret => Tracks.dialect fun d =>
    .ite ?_ .pure)) c c'
  · refine Tracks.advance.bind fun opener => (Tracks.commaList he).level.bind fun indices => ?_
    refine (Tracks.expectClosing _ _ _ _).bind fun _ => access rfl fun s => ?_
    simp only [Variable.moved, Expr.movedAll_eq]
  · exact Tracks.advance.bind fun _ => access rfl fun s => rfl

theorem variableWith_tracks (he : MovesExpr x e e') :
    Tracks x true false (Variable.moved x.shift) (variableWith e) (variableWith e') := by
  refine variableRoot_tracks.bind fun root => Tracks.passes fun n n' => ?_
  refine .repeating (fun v => ?_) (fun v _ => variableAccess_tracks he v) n n' root
  exact .pure

theorem isName_open {l : Lexeme} (h : l.isName = true) : closesStatement l = false := by
  cases l with
  | name => rfl
  | _ => cases h

theorem beginsTyped_open {l : Lexeme} (h : beginsTyped l = true) : closesStatement l = false := by
  cases l with
  | name => rfl
  | keyword k =>
    cases k with
    | STRING | WSTRING => rfl
    | _ => cases h
  | _ => cases h

theorem is_open {l : Lexeme} {t : Terminal} (h : l.is t = true)
    (ht : closesStatement t.lexeme = false) : closesStatement l = false := by
  rw [Terminal.is_lexeme h, ht]

theorem clear_one {ahead : Nat → Token} (h : closesStatement (ahead 0).lexeme = false) :
    ∀ m < 1, closesStatement (ahead m).lexeme = false := by
  intro m hm
  obtain rfl := Nat.lt_one_iff.1 hm
  exact h

theorem clear_two {ahead : Nat → Token} (h : closesStatement (ahead 0).lexeme = false)
    (h' : closesStatement (ahead 1).lexeme = false) :
    ∀ m < 2, closesStatement (ahead m).lexeme = false := by
  intro m hm
  obtain rfl | rfl : m = 0 ∨ m = 1 := by omega
  · exact h
  · exact h'

theorem argument_tracks (he : MovesExpr x e e') :
    Tracks x true false (Arg.moved x.shift) (argument e) (argument e') := by
  refine fun c c' => .peek (.lexemeAt 1 fun next clear => ?_)
  generalize hstart : x.one.ahead c 0 = start at clear ⊢
  -- What comes behind a name or `NOT` is the same on both sides, since neither closes a statement.
  have named (t : Terminal) : (start.lexeme.isName && next.is t) =
      (start.lexeme.isName && (x.one.ahead c 1).lexeme.is t) := by
    cases name : start.lexeme.isName with
    | false => rfl
    | true => rw [clear (clear_one (hstart ▸ isName_open name))]
  have negated : (start.lexeme.is Keyword.NOT && next.isName) =
      (start.lexeme.is Keyword.NOT && (x.one.ahead c 1).lexeme.isName) := by
    cases word : start.lexeme.is Keyword.NOT with
    | false => rfl
    | true => rw [clear (clear_one (hstart ▸ is_open word rfl))]
  show TracksAt x true false (Arg.moved x.shift) c c'
    (if (start.lexeme.isName && (x.one.ahead c 1).lexeme.is Mark.assign) = true then _ else if
      (start.lexeme.isName && (x.one.ahead c 1).lexeme.is Mark.arrow) = true then _ else _)
    (if (start.lexeme.isName && next.is Mark.assign) = true then _ else if
      (start.lexeme.isName && next.is Mark.arrow) = true then _ else _)
  rw [named Mark.assign, named Mark.arrow]
  refine .ite (fun _ => ?_) fun _ => .ite (fun _ => ?_) fun _ => .lexemeAt 2 fun third clear' => ?_
  · refine (Tracks.advance.bind fun _ => Tracks.advance.bind fun _ => ?_) c c'
    exact Tracks.bind he.level fun a => .node rfl fun _ => by simp only [Arg.moved]; rfl
  · refine (Tracks.advance.bind fun _ => Tracks.advance.bind fun _ => ?_) c c'
    exact (variableWith_tracks he).level.bind fun v =>
      .node rfl fun _ => by simp only [Arg.moved]; rfl
  · have output : (start.lexeme.is Keyword.NOT && next.isName && third.is Mark.arrow) =
        (start.lexeme.is Keyword.NOT && (x.one.ahead c 1).lexeme.isName &&
          (x.one.ahead c 2).lexeme.is Mark.arrow) := by
      rw [negated]
      cases both : (start.lexeme.is Keyword.NOT && (x.one.ahead c 1).lexeme.isName) with
      | false => rfl
      | true =>
        obtain ⟨word, name⟩ := Bool.and_eq_true_iff.1 both
        rw [clear' (clear_two (hstart ▸ is_open word rfl) (isName_open name))]
    show TracksAt x true false (Arg.moved x.shift) c c' (if _ then _ else _)
      (if (start.lexeme.is Keyword.NOT && next.isName && third.is Mark.arrow) = true then _ else _)
    rw [output]
    refine .ite (fun _ => ?_) fun _ => ?_
    · refine (Tracks.advance.bind fun _ => Tracks.advance.bind fun name => ?_) c c'
      refine Tracks.advance.bind fun _ => (variableWith_tracks he).level.bind fun v => ?_
      exact .node rfl fun _ => by simp only [Arg.moved]; rfl
    · exact (Tracks.bind he fun a => .node rfl fun _ => by simp only [Arg.moved]) c c'

theorem argumentOrGap_tracks (he : MovesExpr x e e') :
    Tracks x false false (Arg.moved x.shift) (argumentOrGap e) (argumentOrGap e') := by
  refine Tracks.sees _ fun comma => Tracks.sees _ fun close => .ite ?_ (argument_tracks he).level
  refine Tracks.dialect fun d => .ite ?_ .failInvalid
  exact Tracks.peek fun t => .node rfl fun _ => rfl

theorem callArgs_tracks (he : MovesExpr x e e') :
    Tracks x false false (List.map (Arg.moved x.shift)) (callArgs e) (callArgs e') := by
  refine (Tracks.expect _).bind fun opener => (Tracks.accept _).bind fun b => .ite .pure ?_
  refine Tracks.passes fun n n' => ?_
  refine (Tracks.listed .pure (argumentOrGap_tracks he) n n' 0 0).bind fun args => ?_
  exact (Tracks.expectClosing _ _ _ _).bind fun _ => .pure

theorem fails_notCallable {α : Type} (kind : SyntaxError.Kind) (v : Variable) :
    Fails (notCallable kind v : Rule α) :=
  Triple.bind_fails fun _ => Triple.fail _

theorem variableOrCall_tracks (he : MovesExpr x e e') :
    MovesExpr x (variableOrCall e) (variableOrCall e') := by
  refine (variableWith_tracks he).bind fun v => Tracks.sees _ fun b => .ite ?_ .pure
  -- What is called is the dotted name of the variable, wherever the variable stands.
  rw [Variable.path?_moved]
  split
  · exact .fails (fails_notCallable _ _)
  · refine (callArgs_tracks he).bind fun args => .node (v.span_moved _) fun s => ?_
    simp only [Expr.moved, Arg.movedAll_eq]

/-! ### Operands -/

theorem primary_tracks (he : MovesExpr x e e') : MovesExpr x (primary e) (primary e') := by
  intro c c'
  refine .peek ?_
  generalize hstart : x.one.ahead c 0 = t
  rw [show plainLiteral? (t.moved x.shift) = plainLiteral? t from rfl]
  -- The cases are those of the reading; all that it looks at is the same further on, as far as it
  -- is looked at.
  cases plainLiteral? t with
  | some l => exact literal_tracks t l c c'
  | none =>
    obtain ⟨neither, neither'⟩ | ⟨v, timed, timed'⟩ | ⟨f, f', timed, timed'⟩ :=
      timeValue?_moved x.shift t
    · rw [neither, neither']
      refine .ite (fun _ => ?_) fun _ => .lexemeAt 1 fun second clear =>
        .lexemeAt 2 fun third clear' => ?_
      · refine (Tracks.advance.bind fun _ => Tracks.bind he.level fun a => ?_) c c'
        refine (Tracks.expectClosing _ _ _ _).bind fun _ => .node rfl fun _ => ?_
        simp only [Expr.moved]
      -- Three tokens are looked at, the later ones only if the earlier ones fit; so none beyond
      -- what is followed counts.
      · have same : (beginsTyped t.lexeme && second.is Mark.hash && isTypedValue third) =
            (beginsTyped t.lexeme && (x.one.ahead c 1).lexeme.is Mark.hash &&
              isTypedValue (x.one.ahead c 2).lexeme) := by
          cases typed : beginsTyped t.lexeme with
          | false => rfl
          | true =>
            have first := hstart ▸ beginsTyped_open typed
            rw [clear (clear_one first)]
            cases hash : (x.one.ahead c 1).lexeme.is Mark.hash with
            | false => rfl
            | true => rw [clear' (clear_two first (is_open hash rfl))]
        show TracksAt x true false (Expr.moved x.shift) c c' (if _ then _ else _)
          (if (beginsTyped t.lexeme && second.is Mark.hash && isTypedValue third) = true
            then _ else _)
        rw [same]
        exact .ite (fun _ => typedLiteral_tracks c c') fun _ =>
          .ite (fun _ => variableOrCall_tracks he c c') fun _ => Tracks.failInvalid c c'
    · rw [timed, timed']
      exact timeLiteral_tracks t v c c'
    · rw [timed, timed']
      exact Tracks.fails (timeLiteral_fails t f) c c'

/-! ### Signs -/

theorem unaryBody_tracks (hu : MovesExpr x u u') (hp : MovesExpr x p p') :
    MovesExpr x (unaryBody u p) (unaryBody u' p') := by
  refine Tracks.peek fun t => ?_
  dsimp only [Token.moved]
  split
  · refine Tracks.advance.bind fun _ => (binaryFrom_tracks hu hp _).level.bind fun a => ?_
    exact .node rfl fun _ => by simp only [Expr.moved]
  · refine Tracks.advance.bind fun _ => hu.level.bind fun a => ?_
    exact .node rfl fun _ => by simp only [Expr.moved]
  · refine Tracks.advance.bind fun _ => hu.level.bind fun a => ?_
    rw [Expr.span_moved, Span.merge_moved, ← Expr.moved_withSpan]
    exact .pure
  · exact primary_tracks (binaryFrom_tracks hu hp 1)

mutual

/-- The other reading may have fewer constructs left to open; then a limit ends it. -/
theorem unary_tracks : ∀ levels levels', MovesExpr x (unary levels) (unary levels')
  | 0, _ => .tooDeep
  | levels + 1, 0 => (Tracks.nested (unaryBody_tracks (unary_tracks levels 0)
      (powerOperand_tracks levels 0))).limited (Tracks.tooDeep_limited x.other)
  | levels + 1, levels' + 1 =>
    .nested (unaryBody_tracks (unary_tracks levels levels') (powerOperand_tracks levels levels'))

theorem powerOperand_tracks : ∀ levels levels', MovesExpr x (powerOperand levels) (powerOperand levels')
  | 0, _ => .tooDeep
  | levels + 1, 0 => (Tracks.nested (binaryFrom_tracks (unary_tracks levels 0)
      (powerOperand_tracks levels 0) _)).limited (Tracks.tooDeep_limited x.other)
  | levels + 1, levels' + 1 =>
    .nested (binaryFrom_tracks (unary_tracks levels levels') (powerOperand_tracks levels levels') _)

end

theorem expression_tracks (levels levels' : Nat) :
    MovesExpr x (expression levels) (expression levels') :=
  binaryFrom_tracks (unary_tracks levels levels') (powerOperand_tracks levels levels') 1

end Plc.Grammar
