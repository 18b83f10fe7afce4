/-
Expressions stand where they were read.

Each rule for expressions lays out its result between the token it begins at and the last one it
reads.  A plus sign only widens its operand.

* `variableWith_lays`, `callArgs_rows`, `expression_lays` — the rules that other rules use.
-/
import Plc.Proofs.Nesting.Laid

namespace Plc.Grammar

variable {u p e : Rule Expr} {x : Setting} {b : Cursor} {m : Bool} {ns : List Node}

/-! ### Operators -/

theorem operatorFrom_rows (least : Nat) (left : Expr) :
    Triple (Rows x b m [.expr left]) (operatorFrom least left)
      (Sum.elim (fun y => Rows x b m [.expr y]) fun _ => Rows x b m [.expr left]) := by
  refine Triple.bind (Triple.look fun _ _ => rfl) fun l => ?_
  split
  · split
    · exact .pure fun s c rows => rows
    · exact .pure fun s c rows => rows
  · exact .pure fun s c rows => rows

theorem operation_rows {right : BinaryOp → Rule Expr}
    (h : ∀ op, Lays (right op) fun y => [.expr y]) (left : Expr) (op : BinaryOp) :
    Triple (Rows x b m [.expr left]) (operation right left op)
      (Sum.elim (fun y => Rows x b m [.expr y]) fun y => Rows x b m [.expr y]) := by
  refine Triple.bind (Rows.quiet proceeds.advance) fun _ => ?_
  refine Triple.bind (Rows.lay (h op)) fun y => ?_
  refine Triple.bind (Rows.extend (g := fun z => [.expr z]) (fun s => .expr (.binary s op left y))
    rfl fun s => ⟨rfl, rfl, List.Sublist.refl _⟩) fun z => ?_
  exact .pure fun s c rows => rows

theorem climb_lays (hu : Lays u fun y => [.expr y]) (hp : Lays p fun y => [.expr y])
    (tighter least : Nat) : Lays (climb u p tighter least) fun y => [.expr y] := by
  induction tighter generalizing least with
  | zero => exact hu
  | succ tighter ih =>
    intro x b hb
    refine Triple.bind (hu x b hb) fun first => Triple.bind Triple.passes fun n => ?_
    refine Rows.repeating Node.expr (g := fun y => [.expr y]) (operatorFrom_rows least)
      (operation_rows fun op => ?_) n first
    split
    · exact hp
    · exact ih _

theorem binaryFrom_lays (hu : Lays u fun y => [.expr y]) (hp : Lays p fun y => [.expr y])
    (least : Nat) : Lays (binaryFrom u p least) fun y => [.expr y] :=
  climb_lays hu hp _ _

/-! ### Literals -/

section Tokens

variable (hb : InOrder x b) (some : b.rest ≠ [])
include hb some

theorem literal_rows (l : Literal) :
    Triple (AtCursor x b) (literal (x.next b) l) fun y => Rows x b false [.expr y] := by
  refine AtCursor.advance hb some ?_
  have leaf : Triple (Rows x b true []) (node (x.next b).span fun s => Expr.literal s l)
      fun y => Rows x b false [.expr y] :=
    Rows.node (fun s => .expr (.literal s l)) fun s => ⟨rfl, rfl, List.Sublist.refl _⟩
  cases stringLength? l.value with
  | some n => exact Triple.bind (Triple.checkLimit _ _ _) fun _ => leaf
  | none => exact leaf

theorem timeLiteral_rows (value : Except Fault Literal.Value) :
    Triple (AtCursor x b) (timeLiteral (x.next b) value) fun y => Rows x b false [.expr y] := by
  refine AtCursor.advance hb some ?_
  cases value with
  | ok v => exact Rows.node (fun s => .expr (.literal s _)) fun s => ⟨rfl, rfl, List.Sublist.refl _⟩
  | error f => exact .throw f

/-- The number or string after the `#` stands inside the literal and is thrown away. -/
theorem typedLiteral_rows :
    Triple (AtCursor x b) typedLiteral fun y => Rows x b false [.expr y] := by
  refine AtCursor.advance hb some ?_
  have leaf (value : Literal.Value) : Triple (Rows x b true []) (typedNode (x.next b) value)
      fun y => Rows x b false [.expr y] := by
    refine Triple.bind (Triple.look fun _ _ => rfl) fun s => ?_
    refine Triple.bind (Triple.look fun _ _ => rfl) fun text => ?_
    exact Rows.node (fun s => .expr (.literal s _)) fun s => ⟨rfl, rfl, List.Sublist.refl _⟩
  have number (t : Token) (l : Literal) (value : Literal.Value) :
      Triple (Rows x b true []) (literal t l >>= fun _ => typedNode (x.next b) value)
        fun y => Rows x b false [.expr y] :=
    Triple.bind (Rows.quiet (proceeds.literal_rel t l)) fun _ => leaf value
  refine Triple.bind (Rows.quiet (proceeds.expect_rel _)) fun _ => ?_
  refine Triple.bind (Rows.quiet (proceeds.accept_rel _)) fun minus => ?_
  refine Triple.bind (Triple.look fun _ _ => rfl) fun t => ?_
  split
  · refine .ite (fun _ => .failExpecting _) fun _ => ?_
    exact Triple.bind (Rows.quiet proceeds.advance) fun _ => leaf _
  · exact number t _ _
  · exact number t _ _
  · exact .failExpecting _
  · exact .ite (fun _ => .failExpecting _) fun _ => number t _ _
  · exact .failExpecting _

end Tokens

/-! ### Variables and calls -/

theorem variableRoot_lays : Lays variableRoot fun v => [.expr (.variable v)] := by
  intro x b hb
  refine AtCursor.peek (Triple.bind (Triple.look fun _ _ => rfl) fun d => ?_)
  dsimp only
  split
  · next h =>
    refine AtCursor.advance hb (hb.some_of_eq h rfl) ?_
    exact Rows.node (fun s => .expr (.variable (.named s _ .plain)))
      fun s => ⟨rfl, rfl, List.Sublist.refl _⟩
  · next name h =>
    refine .ite (fun _ => AtCursor.advance hb (hb.some_of_eq h rfl) ?_) fun _ => .failInvalid _
    exact Rows.node (fun s => .expr (.variable (.named s name .quoted)))
      fun s => ⟨rfl, rfl, List.Sublist.refl _⟩
  · next h =>
    refine .ite (fun _ => AtCursor.advance hb (hb.some_of_eq h rfl) ?_) fun _ => .failInvalid _
    refine Triple.bind (Rows.quiet (proceeds.expectAnyName_rel _)) fun name => ?_
    exact Rows.node (fun s => .expr (.variable (.named s name.nameText .blockLocal)))
      fun s => ⟨rfl, rfl, List.Sublist.refl _⟩
  · next a h =>
    refine AtCursor.advance hb (hb.some_of_eq h rfl) ?_
    exact Rows.node (fun s => .expr (.variable (.address s _ a)))
      fun s => ⟨rfl, rfl, List.Sublist.refl _⟩
  · exact .failInvalid _

/-- An access begins where the variable does. -/
theorem variableAccess_rows (he : Lays e fun y => [.expr y]) (v : Variable) :
    Triple (Rows x b m [.expr (.variable v)]) (variableAccess e v)
      (Sum.elim (fun w => Rows x b m [.expr (.variable w)])
        fun w => Rows x b m [.expr (.variable w)]) := by
  refine Triple.bind (Triple.look fun _ _ => rfl) fun dot => ?_
  refine Triple.bind (Triple.look fun _ _ => rfl) fun next => .ite (fun _ => ?_) fun _ => ?_
  · refine Triple.bind (Rows.quiet proceeds.advance) fun _ => ?_
    refine Triple.bind (Rows.quiet proceeds.advance) fun member => ?_
    -- The access replaces the variable, whose place it extends.
    refine Triple.bind (Rows.extend (g := fun w => [.expr (.variable w)])
      (fun s => .expr (.variable (.member s v member.nameText))) rfl
      fun s => ⟨rfl, rfl, List.Sublist.refl _⟩) fun w => ?_
    exact .pure fun s c rows => rows
  refine Triple.bind (Triple.look fun _ _ => rfl) fun bracket => .ite (fun _ => ?_) fun _ => ?_
  · refine Triple.bind (Rows.quiet proceeds.advance) fun opener => ?_
    refine Triple.bind (Rows.commaList he) fun indices => ?_
    refine Triple.bind (Rows.quiet (proceeds.expectClosing_rel _ _ _)) fun _ => ?_
    refine Triple.bind (Rows.extend (g := fun w => [.expr (.variable w)])
      (fun s => .expr (.variable (.element s v indices))) rfl
      fun s => ⟨rfl, rfl, List.Sublist.refl _⟩) fun w => ?_
    exact .pure fun s c rows => rows
  refine Triple.bind (Triple.look fun _ _ => rfl) fun caret => ?_
  refine Triple.bind (Triple.look fun _ _ => rfl) fun d => .ite (fun _ => ?_) fun _ => ?_
  · refine Triple.bind (Rows.quiet proceeds.advance) fun _ => ?_
    refine Triple.bind (Rows.extend (g := fun w => [.expr (.variable w)])
      (fun s => .expr (.variable (.deref s v))) rfl
      fun s => ⟨rfl, rfl, List.Sublist.refl _⟩) fun w => ?_
    exact .pure fun s c rows => rows
  · exact .pure fun s c rows => rows

theorem variableWith_lays (he : Lays e fun y => [.expr y]) :
    Lays (variableWith e) fun v => [.expr (.variable v)] := by
  intro x b hb
  refine Triple.bind (variableRoot_lays x b hb) fun root => Triple.bind Triple.passes fun n => ?_
  have look (v : Variable) : Triple (Rows x b false [.expr (.variable v)])
      (return .inr () : Rule (Variable ⊕ Unit))
      (Sum.elim (fun w => Rows x b false [.expr (.variable w)])
        fun _ => Rows x b false [.expr (.variable v)]) := .pure fun s c rows => rows
  exact Rows.repeating (fun v => .expr (.variable v)) (g := fun v => [.expr (.variable v)])
    look (fun v _ => variableAccess_rows he v) n root

theorem argument_lays (he : Lays e fun y => [.expr y]) : Lays (argument e) fun a => [.arg a] := by
  intro x b hb
  refine AtCursor.peek (Triple.bind (Triple.look fun _ _ => rfl) fun next => ?_)
  -- In each case with a name there is a first token, from which the argument reaches to the end of
  -- its value.
  refine .ite (fun named => ?_) fun _ => ?_
  · have some : b.rest ≠ [] := by
      refine hb.some_of_lexeme ?_
      cases h : (x.next b).lexeme <;> simp [h, Lexeme.isName, Lexeme.isFinish] at named ⊢
    refine AtCursor.advance hb some (Triple.bind (Rows.quiet proceeds.advance) fun _ => ?_)
    refine Triple.bind (Rows.lay he) fun value => ?_
    exact Rows.node (fun s => .arg (.named s _ value)) fun s => ⟨rfl, rfl, List.Sublist.refl _⟩
  refine .ite (fun named => ?_) fun _ => ?_
  · have some : b.rest ≠ [] := by
      refine hb.some_of_lexeme ?_
      cases h : (x.next b).lexeme <;> simp [h, Lexeme.isName, Lexeme.isFinish] at named ⊢
    refine AtCursor.advance hb some (Triple.bind (Rows.quiet proceeds.advance) fun _ => ?_)
    refine Triple.bind (Rows.lay (variableWith_lays he)) fun target => ?_
    exact Rows.node (fun s => .arg (.output s _ target false))
      fun s => ⟨rfl, rfl, List.Sublist.refl _⟩
  refine Triple.bind (Triple.look fun _ _ => rfl) fun third => .ite (fun named => ?_) fun _ => ?_
  · have some : b.rest ≠ [] := by
      refine hb.some_of_lexeme (Lexeme.goes_of_is (t := Keyword.NOT) ?_)
      simp only [Bool.and_eq_true] at named
      exact named.1.1
    refine AtCursor.advance hb some (Triple.bind (Rows.quiet proceeds.advance) fun name => ?_)
    refine Triple.bind (Rows.quiet proceeds.advance) fun _ => ?_
    refine Triple.bind (Rows.lay (variableWith_lays he)) fun target => ?_
    exact Rows.node (fun s => .arg (.output s _ target true))
      fun s => ⟨rfl, rfl, List.Sublist.refl _⟩
  · refine Triple.bind (he x b hb) fun value => ?_
    exact Rows.nodeOver (fun s => .arg (.positional s value)) List.mem_cons_self rfl
      fun s => ⟨rfl, rfl, List.Sublist.refl _⟩

/-- An empty place stands where the next token begins, and holds nothing. -/
theorem inferred_touches (hb : InOrder x b) :
    Triple (AtCursor x b) (node ⟨(x.next b).span.start, (x.next b).span.start, Nat.le_refl _⟩ Arg.inferred)
      fun a => Touches x b false [.arg a] := by
  -- Nothing is read, so the cursor stays between the last token and the next one.
  let stays : Assertion := fun s c => s = x ∧ c.rest = b.rest ∧ c.lastStop = b.lastStop
  have stable : Stable stays := by
    rintro s c c' rest stop ⟨rfl, rest', stop'⟩
    exact ⟨rfl, rest.trans rest', stop.trans stop'⟩
  have place : Triple stays (node ⟨(x.next b).span.start, (x.next b).span.start, Nat.le_refl _⟩
      Arg.inferred) fun a => Touches x b false [.arg a] := by
    refine stable.nodeAt ?_
    rintro span s c ⟨rfl, rest, stop⟩ first last
    have before := hb.lastStop_le
    have inside := hb.next_inside
    have ordered := (s.next b).span.ordered
    dsimp only at first last
    rw [stop] at last
    refine ⟨⟨rfl, hb, hb.of_same rest stop, .inl ⟨rest, stop⟩, nofun, .nil _ _ _⟩,
      fun n hn k hk => ?_, fun n hn => ?_, List.pairwise_singleton _ _⟩
    · obtain rfl := List.mem_singleton.1 hn
      obtain rfl := List.mem_singleton.1 hk
      refine ⟨?_, nofun, by rintro m ⟨⟩, List.Pairwise.nil⟩
      show span.stop ≤ _
      omega
    · obtain rfl := List.mem_singleton.1 hn
      rw [next_of_rest rest]
      show _ ≤ span.start ∧ span.start < _ ∧ span.stop ≤ _
      omega
  exact place.imp fun s c hc => ⟨hc.1, by rw [hc.2], by rw [hc.2]⟩

theorem argumentOrGap_touches (he : Lays e fun y => [.expr y]) (x : Setting) (b : Cursor)
    (hb : InOrder x b) : Triple (AtCursor x b) (argumentOrGap e) fun a => Touches x b false [.arg a] := by
  refine Triple.bind (Triple.look fun _ _ => rfl) fun comma => ?_
  refine Triple.bind (Triple.look fun _ _ => rfl) fun close => .ite (fun _ => ?_) fun _ => ?_
  · refine Triple.bind (Triple.look fun _ _ => rfl) fun d => .ite (fun _ => ?_) fun _ => .failInvalid _
    exact AtCursor.peek (inferred_touches hb)
  · exact (argument_lays he x b hb).post fun a s c rows => .of_rows rows

theorem callArgs_rows (he : Lays e fun y => [.expr y]) :
    Triple (Rows x b m ns) (callArgs e) fun args => Rows x b m (ns ++ args.map .arg) := by
  refine Triple.bind (Rows.quiet (proceeds.expect_rel _)) fun opener => ?_
  refine Triple.bind (Rows.quiet (proceeds.accept_rel _)) fun none => .ite (fun _ => ?_) fun _ => ?_
  · exact .pure fun s c rows => by rwa [List.map_nil, List.append_nil]
  refine Triple.bind Triple.passes fun n => ?_
  refine Triple.bind (Touches.listed (argumentOrGap_touches he) n 0) fun args => ?_
  refine Triple.bind (Touches.expectClosing _ _ _) fun _ => ?_
  exact .pure fun s c rows => rows

theorem notCallable_fails {α : Type} {P : Assertion} (kind : SyntaxError.Kind) (callee : Variable)
    {Q : α → Assertion} : Triple P (notCallable kind callee) Q :=
  .bind_fails fun _ => .fail _

theorem variableOrCall_lays (he : Lays e fun y => [.expr y]) :
    Lays (variableOrCall e) fun y => [.expr y] := by
  intro x b hb
  refine Triple.bind (variableWith_lays he x b hb) fun v => ?_
  refine Triple.bind (Triple.look fun _ _ => rfl) fun called => .ite (fun _ => ?_) fun _ => ?_
  · split
    · exact notCallable_fails _ _
    · refine Triple.bind (callArgs_rows he) fun args => ?_
      exact Rows.extend (fun s => .expr (.call s _ args)) rfl
        fun s => ⟨rfl, rfl, List.sublist_cons_self _ _⟩
  · exact .pure fun s c rows => rows

/-! ### Operands -/

theorem primary_lays (he : Lays e fun y => [.expr y]) : Lays (primary e) fun y => [.expr y] := by
  intro x b hb
  refine AtCursor.peek ?_
  split
  · next _ l h =>
    refine literal_rows hb (hb.some_of_lexeme ?_) l
    cases h' : (x.next b).lexeme <;> simp [plainLiteral?, h', Lexeme.isFinish] at h ⊢
  · next value _ h =>
    refine timeLiteral_rows hb (hb.some_of_lexeme ?_) value
    cases h' : (x.next b).lexeme <;> simp [timeValue?, h', Lexeme.isFinish] at h ⊢
  · refine .ite (fun paren => ?_) fun _ => ?_
    · refine AtCursor.advance hb (hb.some_of_lexeme (Lexeme.goes_of_is paren)) ?_
      refine Triple.bind (Rows.lay he) fun inner => ?_
      refine Triple.bind (Rows.quiet (proceeds.expectClosing_rel _ _ _)) fun _ => ?_
      exact Rows.node (fun s => .expr (.paren s inner)) fun s => ⟨rfl, rfl, List.Sublist.refl _⟩
    refine Triple.bind (Triple.look fun _ _ => rfl) fun next => ?_
    refine Triple.bind (Triple.look fun _ _ => rfl) fun third => .ite (fun typed => ?_) fun _ => ?_
    · refine typedLiteral_rows hb (hb.some_of_lexeme ?_)
      cases h : (x.next b).lexeme <;> simp [h, beginsTyped, Lexeme.isFinish] at typed ⊢
    · exact .ite (fun _ => variableOrCall_lays he x b hb) fun _ => .failInvalid _

theorem ofExpr_withSpan (span : Span) (y : Expr) :
    Node.ofExpr (y.withSpan span) = Node.ofExpr y := by
  cases y with
  | «variable» v => cases v <;> rfl
  | _ => rfl

/-- A plus sign widens its operand. -/
theorem plus_rows {y : Expr} {s : Setting} {c : Cursor} (h : Rows x b true [.expr y] s c) :
    Rows x b false [.expr (y.withSpan ((x.next b).span.merge y.span))] s c := by
  have within := h.row.within _ List.mem_cons_self
  obtain ⟨-, passed⟩ := h.passed rfl
  refine { h.forget with
    row := h.row.widen (ofExpr_withSpan _ y) ?_ ?_ rfl ?_ h.stands.inside }
  · show Span.contains (Expr.span _) y.span = true
    rw [Expr.span_withSpan]
    exact Span.merge_contains_right _ _
  · show _ ≤ (Expr.span _).start
    rw [Expr.span_withSpan]
    exact Nat.le_min.2 ⟨Nat.le_refl _, within.1⟩
  · show (Expr.span _).stop ≤ _
    rw [Expr.span_withSpan]
    exact Nat.max_le.2 ⟨passed, within.2.2⟩

theorem unaryBody_lays (hu : Lays u fun y => [.expr y]) (hp : Lays p fun y => [.expr y]) :
    Lays (unaryBody u p) fun y => [.expr y] := by
  intro x b hb
  refine AtCursor.peek ?_
  split
  · next h =>
    refine AtCursor.advance hb (hb.some_of_eq h rfl) ?_
    refine Triple.bind (Rows.lay (binaryFrom_lays hu hp _)) fun y => ?_
    exact Rows.node (fun s => .expr (.unary s .not y)) fun s => ⟨rfl, rfl, List.Sublist.refl _⟩
  · next h =>
    refine AtCursor.advance hb (hb.some_of_eq h rfl) (Triple.bind (Rows.lay hu) fun y => ?_)
    exact Rows.node (fun s => .expr (.unary s .neg y)) fun s => ⟨rfl, rfl, List.Sublist.refl _⟩
  · next h =>
    refine AtCursor.advance hb (hb.some_of_eq h rfl) (Triple.bind (Rows.lay hu) fun y => ?_)
    exact .pure fun s c rows => plus_rows rows
  · exact primary_lays (binaryFrom_lays hu hp 1) x b hb

mutual

theorem unary_lays : ∀ levels, Lays (unary levels) fun y => [.expr y]
  | 0 => .tooDeep
  | levels + 1 => .nested (unaryBody_lays (unary_lays levels) (powerOperand_lays levels))

theorem powerOperand_lays : ∀ levels, Lays (powerOperand levels) fun y => [.expr y]
  | 0 => .tooDeep
  | levels + 1 => .nested (binaryFrom_lays (unary_lays levels) (powerOperand_lays levels) _)

end

theorem expression_lays (levels : Nat) : Lays (expression levels) fun y => [.expr y] :=
  binaryFrom_lays (unary_lays levels) (powerOperand_lays levels) 1

end Plc.Grammar
