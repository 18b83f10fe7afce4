/-
Statements read side by side.

Each rule for statements gives trees of one shape where the words ahead are the same.  A region is
the exception, since its title is the rest of its line; it does not come up.

* `statementListUntil_twin` — the list inside every construct;
* `statement_twin`, `allStatements_twin` — one statement, and a text of them.
-/
import Plc.Grammar.Stmt
import Plc.Proofs.Formatting.Expr

namespace Plc.Grammar

variable {x : Pair}

/-- The rule gives statements of one shape. -/
abbrev ShapedStmt (x : Pair) (s : Rule Stmt) : Prop := Twin x (Stmt.shape x.view) s s

variable {e : Rule Expr} {s : Rule Stmt}

/-! ### Lists of statements -/

/-- The rule gives lists of statements of one shape. -/
abbrev ShapedList (x : Pair) (b : Rule (List Stmt)) : Prop :=
  Twin x (List.map (Stmt.shape x.view)) b b

theorem statementListUntil_twin {stop : Rule Bool} (hstop : Twin x id stop stop)
    (hs : ShapedStmt x s) : ShapedList x (statementListUntil stop s) := by
  refine Twin.passes.same fun n => .many (Twin.lexeme fun l _ => ?_) (fun size => ?_) n 0
  · exact .ite (.pure rfl) (hstop.same fun _ => .pure rfl)
  · -- Either both sides have a statement or neither has one.
    refine (Twin.recovering hs).bind ?_
    rintro (_ | a) (_ | a') same
    · exact .pure rfl
    · cases same
    · cases same
    · exact (Twin.checkSize _ _ _).same fun _ =>
        .pure (congrArg (fun b => [b]) (Option.some.inj same))

theorem statementList_twin (hs : ShapedStmt x s) : ShapedList x (statementList s) :=
  statementListUntil_twin (.pure rfl) hs

/-- Nothing is stray, since no error is recovered from. -/
theorem noStrays_twin {item : Nat → Rule (List Stmt)} (ends : List Keyword) (n size : Nat) :
    ShapedList x (many (seesStray ends) item n size) := by
  intro c c' side
  -- The mode is asked first, so the token ahead is not looked at.
  have clear (s : Setting) (c : Cursor) (strict : s.recovers = false) :
      seesStray ends s c = .ok false c := by
    show EStateM.Result.ok (s.recovers && isStray ends (s.next c).lexeme) c = _
    rw [strict]
    rfl
  rw [many_done (clear x.one c x.strict.1), many_done (clear x.other c' x.strict.2)]
  exact .ok rfl side

theorem bodyWith_twin (hs : ShapedStmt x s) (ends : List Keyword) :
    ShapedList x (bodyWith s ends) := by
  refine (statementList_twin hs).bind fun first first' same => Twin.passes.same fun n => ?_
  rw [← Twin.length_eq_of_map same]
  refine (noStrays_twin ends n first.length).bind fun others others' same' => .pure ?_
  rw [List.map_append, List.map_append, same, same']

/-! ### Simple statements -/

theorem assignmentOrCall_twin (he : Shaped x e) : ShapedStmt x (assignmentOrCall e) := by
  refine Twin.peek.bind fun start start' _ => (variableWith_twin he).bind fun v v' h => ?_
  refine (Twin.sees _).same fun b => .ite ?_ ?_
  · rw [Variable.path?_of_shape h]
    split
    · exact notCallable_twin _ _ _
    · refine (callArgs_twin he).bind fun args args' same => ?_
      -- The statement is an invocation if the first name of the path is declared.
      rw [Variable.root?_of_shape h]
      refine (Twin.isDeclared _).same fun known => .ite ?_ ?_
      · refine Twin.expectSemicolon.same fun _ => .node fun _ _ => ?_
        simp only [Stmt.shape, Arg.shapeAll_eq, h, same]
      · refine Twin.skip (.node fun _ _ => rfl) fun call call' => ?_
        refine Twin.expectSemicolon.same fun _ => .node fun _ _ => ?_
        simp only [Stmt.shape, Arg.shapeAll_eq, same]
  · refine Twin.lexeme fun l _ => ?_
    split
    · exact .failExpecting _
    · refine Twin.advance.bind fun _ _ _ => Twin.bind he fun a a' same => ?_
      refine Twin.expectSemicolon.same fun _ => .node fun _ _ => ?_
      simp only [Stmt.shape, h, same]

theorem oneWord_twin {build : Span → Stmt}
    (h : ∀ s s', (build s).shape x.view = (build s').shape x.view) :
    ShapedStmt x (oneWord build) :=
  Twin.advance.bind fun _ _ _ => Twin.expectSemicolon.same fun _ => .node h

theorem leaveStmt_twin (he : Shaped x e) : ShapedStmt x (leaveStmt e) := by
  refine Twin.advance.bind fun t t' _ => Twin.lexeme fun l _ => ?_
  have last (o o' : Option Expr) (same : o.map (Expr.shape x.view) = o'.map (Expr.shape x.view)) :
      Twin x (Stmt.shape x.view) (expectSemicolon >>= fun _ => node t.span fun s => .leave s o)
        (expectSemicolon >>= fun _ => node t'.span fun s => .leave s o') :=
    Twin.expectSemicolon.same fun _ => .node fun _ _ => congrArg (Stmt.leave .zero) same
  refine .ite (Twin.bind (f := Option.map (Expr.shape x.view)) (.pure rfl) last) ?_
  exact Twin.bind (f := Option.map (Expr.shape x.view))
    (Twin.map he fun a a' same => congrArg some same) last

theorem gotoStmt_twin : ShapedStmt x gotoStmt := by
  refine Twin.advance.bind fun _ _ _ => (Twin.expectName _).bind fun label label' same => ?_
  obtain ⟨span, rfl⟩ := Token.elsewhere same
  exact Twin.expectSemicolon.same fun _ => .node fun _ _ => rfl

/-! ### Constructs -/

theorem endConstruct_twin (close : Keyword) (opener opener' : Span) :
    Twin x id (endConstruct close opener) (endConstruct close opener') := by
  refine (Twin.sees _).same fun b => .ite ?_ ?_
  · exact Twin.advance.bind fun _ _ _ => (Twin.accept _).same fun _ => .pure rfl
  · exact Twin.atEnd.same fun b => .ite (.fail rfl) (.failExpecting _)

theorem ifBranch_twin (he : Shaped x e) (hs : ShapedStmt x s) (t t' : Token) :
    Twin x (IfBranch.shape x.view) (ifBranch e s t) (ifBranch e s t') := by
  refine Twin.bind he fun condition condition' h => (Twin.expect _).bind fun _ _ _ => ?_
  refine (statementList_twin hs).bind fun body body' same => .node fun _ _ => ?_
  simp only [IfBranch.shape, Stmt.shapeAll_eq, h, same]

theorem elseBody_twin (hs : ShapedStmt x s) :
    Twin x (Option.map (List.map (Stmt.shape x.view))) (elseBody s) (elseBody s) := by
  refine (Twin.accept _).same fun b => .ite ?_ (.pure rfl)
  exact (statementList_twin hs).map fun ss ss' same => congrArg some same

theorem ifStmt_twin (he : Shaped x e) (hs : ShapedStmt x s) : ShapedStmt x (ifStmt e s) := by
  refine Twin.advance.bind fun t t' _ => (ifBranch_twin he hs t t').bind fun first first' h => ?_
  refine Twin.passes.same fun n => ?_
  refine (Twin.many (f := IfBranch.shape x.view) (Twin.sees _) (fun size => ?_) n 0).bind
    fun elsifs elsifs' hs' => ?_
  · refine Twin.advance.bind fun opener opener' _ => ?_
    refine (ifBranch_twin he hs opener opener').bind fun branch branch' same => ?_
    exact (Twin.checkSize _ _ _).same fun _ => .pure (congrArg (fun b => [b]) same)
  refine (elseBody_twin hs).bind fun otherwise otherwise' ho => ?_
  refine (endConstruct_twin _ _ _).same fun _ => .node fun _ _ => ?_
  rw [Stmt.shape_ifThen, Stmt.shape_ifThen, h, hs', ho]

theorem caseSelector_twin (he : Shaped x e) :
    Twin x (CaseSelector.shape x.view) (caseSelector e) (caseSelector e) := by
  refine Twin.peek.bind fun start start' _ => Twin.bind he fun low low' h => ?_
  refine (Twin.accept _).same fun b => .ite ?_ ?_
  · refine Twin.bind he fun high high' h' => .node fun _ _ => ?_
    simp only [CaseSelector.shape, h, h']
  · exact .node fun _ _ => congrArg (CaseSelector.value .zero) h

/-- Whether a label comes next depends on the words only. -/
theorem labelAhead_twin : Twin x id
    (dialect >>= fun d => tokensLeft >>= fun ts =>
      pure (beginsCaseLabel d (ts.map Token.lexeme)))
    (dialect >>= fun d => tokensLeft >>= fun ts =>
      pure (beginsCaseLabel d (ts.map Token.lexeme))) := by
  refine Twin.dialect.same fun d => Twin.tokensLeft.bind fun ts ts' same => .pure ?_
  have lexemes := congrArg (List.map Word.lexeme) same
  rw [List.map_map, List.map_map] at lexemes
  exact congrArg (beginsCaseLabel d) lexemes

theorem caseBranch_twin (he : Shaped x e) (hs : ShapedStmt x s) :
    Twin x (CaseBranch.shape x.view) (caseBranch e s) (caseBranch e s) := by
  refine Twin.peek.bind fun start start' _ => ?_
  refine (Twin.commaList (caseSelector_twin he)).bind fun selectors selectors' h => ?_
  refine (Twin.expect _).bind fun _ _ _ => ?_
  refine (statementListUntil_twin labelAhead_twin hs).bind fun body body' same => ?_
  refine .node fun _ _ => ?_
  simp only [CaseBranch.shape, Stmt.shapeAll_eq, h, same]

theorem caseStmt_twin (he : Shaped x e) (hs : ShapedStmt x s) : ShapedStmt x (caseStmt e s) := by
  refine Twin.advance.bind fun t t' _ => Twin.bind he fun selector selector' h => ?_
  refine (Twin.expect _).bind fun _ _ _ => Twin.passes.same fun n => ?_
  refine (Twin.many (f := CaseBranch.shape x.view) (Twin.lexeme fun _ _ => .pure rfl)
    (fun size => ?_) n 0).bind fun branches branches' hb => ?_
  · refine (caseBranch_twin he hs).bind fun branch branch' same => ?_
    exact (Twin.checkSize _ _ _).same fun _ => .pure (congrArg (fun b => [b]) same)
  refine (elseBody_twin hs).bind fun otherwise otherwise' ho => ?_
  refine (endConstruct_twin _ _ _).same fun _ => .node fun _ _ => ?_
  rw [Stmt.shape_caseOf, Stmt.shape_caseOf, h, hb, ho]

theorem forStmt_twin (he : Shaped x e) (hs : ShapedStmt x s) : ShapedStmt x (forStmt e s) := by
  refine Twin.advance.bind fun t t' _ => Twin.dialect.same fun d => ?_
  -- Where a dialect has a mark for local names, one may stand in front of the control variable.
  have unmarked {k k' : Rule Stmt} (hk : Twin x (Stmt.shape x.view) k k') :
      Twin x (Stmt.shape x.view) (if d.localMark = true then accept Mark.hash >>= fun _ => k else k)
        (if d.localMark = true then accept Mark.hash >>= fun _ => k' else k') :=
    .ite ((Twin.accept _).same fun _ => hk) hk
  refine unmarked ?_
  refine (Twin.expectAnyName _).bind fun control control' hcontrol => ?_
  obtain ⟨span, rfl⟩ := Token.elsewhere hcontrol
  refine (Twin.expect _).bind fun _ _ _ => Twin.bind he fun start start' hstart => ?_
  refine (Twin.expect _).bind fun _ _ _ => Twin.bind he fun stop stop' hstop => ?_
  refine (Twin.accept _).same fun b => Twin.optional he fun step step' hstep => ?_
  refine (Twin.expect _).bind fun _ _ _ => (statementList_twin hs).bind fun body body' same => ?_
  refine (endConstruct_twin _ _ _).same fun _ => .node fun _ _ => ?_
  simp only [Stmt.shape, Stmt.shapeAll_eq, hstart, hstop, hstep, same]
  rfl

theorem whileStmt_twin (he : Shaped x e) (hs : ShapedStmt x s) : ShapedStmt x (whileStmt e s) := by
  refine Twin.advance.bind fun t t' _ => Twin.bind he fun condition condition' h => ?_
  refine (Twin.expect _).bind fun _ _ _ => (statementList_twin hs).bind fun body body' same => ?_
  refine (endConstruct_twin _ _ _).same fun _ => .node fun _ _ => ?_
  simp only [Stmt.shape, Stmt.shapeAll_eq, h, same]

theorem repeatStmt_twin (he : Shaped x e) (hs : ShapedStmt x s) : ShapedStmt x (repeatStmt e s) := by
  refine Twin.advance.bind fun t t' _ => (statementList_twin hs).bind fun body body' same => ?_
  refine (Twin.expect _).bind fun _ _ _ => Twin.bind he fun condition condition' h => ?_
  refine (Twin.accept _).same fun _ => (endConstruct_twin _ _ _).same fun _ => .node fun _ _ => ?_
  simp only [Stmt.shape, Stmt.shapeAll_eq, h, same]

/-! ### One statement -/

theorem plainStmt_twin (he : Shaped x e) : ShapedStmt x (plainStmt e) := by
  refine Twin.peek.bind fun t t' same => ?_
  obtain ⟨span, rfl⟩ := Token.elsewhere same
  refine .ite (Twin.advance.bind fun _ _ _ => .node fun _ _ => rfl) ?_
  refine Twin.dialect.same fun d => Twin.lexemeAt 1 fun next _ => .ite ?_ ?_
  · exact Twin.advance.bind fun _ _ _ => Twin.advance.bind fun _ _ _ => .node fun _ _ => rfl
  · exact .ite (assignmentOrCall_twin he) (.failInvalid _)

theorem statementBody_twin (he : Shaped x e) (hs : ShapedStmt x s) :
    ShapedStmt x (statementBody e s) := by
  refine Twin.lexeme fun l absent => ?_
  split
  · exact ifStmt_twin he hs
  · exact caseStmt_twin he hs
  · exact forStmt_twin he hs
  · exact whileStmt_twin he hs
  · exact repeatStmt_twin he hs
  · exact oneWord_twin fun _ _ => rfl
  · exact oneWord_twin fun _ _ => rfl
  · exact leaveStmt_twin he
  · exact gotoStmt_twin
  · -- A region does not come up.
    exact absurd (absent _ x.region) (by decide)
  · exact plainStmt_twin he

theorem statement_twin (levels : Nat) : ShapedStmt x (statement levels) := by
  induction levels with
  | zero => exact .tooDeep
  | succ levels ih => exact .nested (statementBody_twin (expression_twin levels) ih)

theorem expectEnd_twin : Twin x id expectEnd expectEnd :=
  Twin.atEnd.same fun _ => .ite (.failExpecting _) (.pure rfl)

theorem finishText_twin : Twin x id finishText finishText := by
  intro c c' side
  have strict (s : Setting) (c : Cursor) (h : s.recovers = false) :
      finishText s c = expectEnd s c := by
    show (if (s.recovers && !(s.next c).lexeme.isFinish) = true then _ else expectEnd : Rule Unit)
      s c = _
    rw [h]
    rfl
  rw [strict x.one c x.strict.1, strict x.other c' x.strict.2]
  exact expectEnd_twin c c' side

/-- Texts of the same words are read as statements of one shape. -/
theorem allStatements_twin (levels : Nat) (declared : List String) :
    ShapedList x (allStatements levels declared) := by
  refine (Twin.declaring declared (bodyWith_twin (statement_twin levels) [])).bind
    fun ss ss' same => ?_
  exact finishText_twin.same fun _ => .pure same

end Plc.Grammar
