/-
The rules for statements, seen by relations that the ways of building rules keep.

What may follow a body depends on whether errors are recovered from; so only a relation
that holds for all rules of the grammar holds for whole bodies.

* `statement_rel` — one statement;
* `body_rel`, `allStatements_rel` — the statements of a body and of a text.
-/
import Plc.Proofs.Grammar.ExprCongruence

namespace Plc.Grammar

variable {Q N : ⦃α : Type⦄ → Rule α → Rule α → Prop}
variable {e e' : Rule Expr} {s s' : Rule Stmt}

namespace Congruence

variable (h : Congruence Q N)
include h

/-! ### Simple statements -/

theorem checkSizes_rel (size : Nat) (ss : List Stmt) : Q (checkSizes size ss) (checkSizes size ss) := by
  induction ss generalizing size with
  | nil => exact h.pure _
  | cons s ss ih => exact h.bind (h.checkSize_rel _ _) fun _ => ih _

theorem oneWord_rel (build : Span → Stmt) : Q (oneWord build) (oneWord build) := by
  unfold oneWord
  refine h.bind h.advance fun t => ?_
  exact h.bind h.expectSemicolon_rel fun _ => h.node_rel _ _

theorem leaveStmt_rel (he : Q e e') : Q (leaveStmt e) (leaveStmt e') := by
  unfold leaveStmt
  refine h.bind h.advance fun t => ?_
  refine h.bind h.lexeme_rel fun l => ?_
  refine h.choose (h.pure _) (h.map _ he) fun value => ?_
  exact h.bind h.expectSemicolon_rel fun _ => h.node_rel _ _

theorem gotoStmt_rel : Q gotoStmt gotoStmt := by
  unfold gotoStmt
  refine h.bind h.advance fun t => ?_
  refine h.bind (h.expectName_rel _) fun label => ?_
  exact h.bind h.expectSemicolon_rel fun _ => h.node_rel _ _

theorem endConstruct_rel (close : Keyword) (opener : Span) :
    Q (endConstruct close opener) (endConstruct close opener) := by
  unfold endConstruct
  refine h.bind (h.sees_rel _) fun b => h.ite ?_ ?_
  · refine h.bind h.advance fun _ => ?_
    exact h.bind (h.accept_rel _) fun _ => h.pure _
  · exact h.bind h.atEnd_rel fun b => h.ite (h.fail_rel _) (h.failExpecting_rel _)

theorem caseSelector_rel (he : Q e e') : Q (caseSelector e) (caseSelector e') := by
  unfold caseSelector
  refine h.bind h.peek_rel fun start => ?_
  refine h.bind he fun low => ?_
  refine h.bind (h.accept_rel _) fun b => h.ite ?_ (h.node_rel _ _)
  exact h.bind he fun high => h.node_rel _ _

theorem skipBefore_rel (stop : Nat) : Q (skipBefore stop) (skipBefore stop) := by
  unfold skipBefore
  have more : Q (do return !(← atEnd) && (← peek).span.start < stop)
      (do return !(← atEnd) && (← peek).span.start < stop) := by
    refine h.bind h.atEnd_rel fun b => ?_
    exact h.bind h.peek_rel fun t => h.pure _
  refine h.follow (h.many more (fun _ => ?_) 0) fun _ => h.pure _
  exact h.bind h.advance fun _ => h.pure _

theorem restOfLine_rel (start : Nat) : Q (restOfLine start) (restOfLine start) := by
  unfold restOfLine
  exact h.bind h.sourceText fun source => h.pure _

end Congruence

namespace RecoveryCongruence

open Congruence

section Parts

variable (h : RecoveryCongruence Q N)
include h

/-! ### Statements without a word of their own -/

theorem assignmentOrCall_rel (he : Q e e') : Q (assignmentOrCall e) (assignmentOrCall e') := by
  unfold assignmentOrCall
  refine h.bind h.peek_rel fun start => ?_
  refine h.bind (variableWith_rel h.toCongruence he) fun target => ?_
  refine h.bind (h.sees_rel _) fun b => h.ite ?_ ?_
  · cases target.path? with
    | none => exact notCallable_rel h.toCongruence _ _
    | some name =>
      refine h.bind (callArgs_rel h.toCongruence he) fun args => ?_
      refine h.bind (h.isDeclared _) fun b => h.ite ?_ ?_
      · exact h.bind h.expectSemicolon_rel fun _ => h.node_rel _ _
      · refine h.bind (h.node_rel _ _) fun callSpan => ?_
        exact h.bind h.expectSemicolon_rel fun _ => h.node_rel _ _
  · refine h.bind h.lexeme_rel fun l => ?_
    cases AssignOp.ofLexeme? l with
    | none => exact h.failExpecting_rel _
    | some op =>
      refine h.bind h.advance fun _ => ?_
      refine h.bind he fun value => ?_
      exact h.bind h.expectSemicolon_rel fun _ => h.node_rel _ _

theorem plainStmt_rel (he : Q e e') : Q (plainStmt e) (plainStmt e') := by
  unfold plainStmt
  refine h.bind h.peek_rel fun t => h.ite ?_ ?_
  · exact h.bind h.advance fun _ => h.node_rel _ _
  refine h.bind h.dialect fun d => ?_
  refine h.bind (h.lexemeAt_rel _) fun next => h.ite ?_ ?_
  · refine h.bind h.advance fun _ => ?_
    exact h.bind h.advance fun _ => h.node_rel _ _
  · exact h.ite (assignmentOrCall_rel h he) (h.failInvalid_rel _)

/-! ### Lists of statements -/

theorem statementListUntil_rel {stop stop' : Rule Bool} (hstop : Q stop stop') (hs : Q s s') :
    Q (statementListUntil stop s) (statementListUntil stop' s') := by
  unfold statementListUntil
  have more : Q (do if endsStatements (← lexeme) then return false else return !(← stop))
      (do if endsStatements (← lexeme) then return false else return !(← stop')) := by
    refine h.bind h.lexeme_rel fun l => h.ite (h.pure _) ?_
    exact h.bind hstop fun b => h.pure _
  refine h.many more (fun size => ?_) 0
  refine h.bind (h.recovering _ _ hs) fun x => ?_
  cases x with
  | some s => exact h.bind (h.checkSize_rel _ _) fun _ => h.pure _
  | none => exact h.pure _

theorem statementList_rel (hs : Q s s') : Q (statementList s) (statementList s') :=
  statementListUntil_rel h (h.pure false) hs

/-! ### Constructs -/

theorem ifBranch_rel (he : Q e e') (hs : Q s s') (opener : Token) :
    Q (ifBranch e s opener) (ifBranch e' s' opener) := by
  unfold ifBranch
  refine h.bind he fun condition => ?_
  refine h.bind (h.expect_rel _) fun _ => ?_
  exact h.bind (statementList_rel h hs) fun body => h.node_rel _ _

theorem elseBody_rel (hs : Q s s') : Q (elseBody s) (elseBody s') := by
  unfold elseBody
  exact h.bind (h.accept_rel _) fun b => h.ite (h.map _ (statementList_rel h hs)) (h.pure _)

theorem ifStmt_rel (he : Q e e') (hs : Q s s') : Q (ifStmt e s) (ifStmt e' s') := by
  unfold ifStmt
  refine h.bind h.advance fun t => ?_
  refine h.bind (ifBranch_rel h he hs t) fun first => ?_
  refine h.follow (h.many (h.sees_rel _) (fun size => ?_) 0) fun elsifs => ?_
  · refine h.bind h.advance fun opener => ?_
    refine h.bind (ifBranch_rel h he hs opener) fun branch => ?_
    exact h.bind (h.checkSize_rel _ _) fun _ => h.pure _
  refine h.bind (elseBody_rel h hs) fun otherwise => ?_
  exact h.bind (endConstruct_rel h.toCongruence _ _) fun _ => h.node_rel _ _

theorem caseBranch_rel (he : Q e e') (hs : Q s s') : Q (caseBranch e s) (caseBranch e' s') := by
  unfold caseBranch
  refine h.bind h.peek_rel fun start => ?_
  refine h.bind (h.commaList _ (caseSelector_rel h.toCongruence he)) fun selectors => ?_
  refine h.bind (h.expect_rel _) fun _ => ?_
  have stop : Q (do return beginsCaseLabel (← dialect) ((← tokensLeft).map Token.lexeme))
      (do return beginsCaseLabel (← dialect) ((← tokensLeft).map Token.lexeme)) := by
    refine h.bind h.dialect fun d => ?_
    exact h.bind h.tokensLeft fun ts => h.pure _
  exact h.bind (statementListUntil_rel h stop hs) fun body => h.node_rel _ _

theorem caseStmt_rel (he : Q e e') (hs : Q s s') : Q (caseStmt e s) (caseStmt e' s') := by
  unfold caseStmt
  refine h.bind h.advance fun t => ?_
  refine h.bind he fun selector => ?_
  refine h.bind (h.expect_rel _) fun _ => ?_
  refine h.follow (h.many ?_ (fun size => ?_) 0) fun branches => ?_
  · exact h.bind h.lexeme_rel fun l => h.pure _
  · refine h.bind (caseBranch_rel h he hs) fun branch => ?_
    exact h.bind (h.checkSize_rel _ _) fun _ => h.pure _
  refine h.bind (elseBody_rel h hs) fun otherwise => ?_
  exact h.bind (endConstruct_rel h.toCongruence _ _) fun _ => h.node_rel _ _

theorem forStmt_rel (he : Q e e') (hs : Q s s') : Q (forStmt e s) (forStmt e' s') := by
  unfold forStmt
  refine h.bind h.advance fun t => ?_
  refine h.bind h.dialect fun d => h.perhaps (h.accept_rel _) ?_
  refine h.bind (h.expectAnyName_rel _) fun control => ?_
  refine h.bind (h.expect_rel _) fun _ => ?_
  refine h.bind he fun start => ?_
  refine h.bind (h.expect_rel _) fun _ => ?_
  refine h.bind he fun stop => ?_
  refine h.bind (h.accept_rel _) fun b => ?_
  refine h.choose (h.map _ he) (h.pure _) fun step => ?_
  refine h.bind (h.expect_rel _) fun _ => ?_
  refine h.bind (statementList_rel h hs) fun body => ?_
  exact h.bind (endConstruct_rel h.toCongruence _ _) fun _ => h.node_rel _ _

theorem whileStmt_rel (he : Q e e') (hs : Q s s') : Q (whileStmt e s) (whileStmt e' s') := by
  unfold whileStmt
  refine h.bind h.advance fun t => ?_
  refine h.bind he fun condition => ?_
  refine h.bind (h.expect_rel _) fun _ => ?_
  refine h.bind (statementList_rel h hs) fun body => ?_
  exact h.bind (endConstruct_rel h.toCongruence _ _) fun _ => h.node_rel _ _

theorem repeatStmt_rel (he : Q e e') (hs : Q s s') : Q (repeatStmt e s) (repeatStmt e' s') := by
  unfold repeatStmt
  refine h.bind h.advance fun t => ?_
  refine h.bind (statementList_rel h hs) fun body => ?_
  refine h.bind (h.expect_rel _) fun _ => ?_
  refine h.bind he fun condition => ?_
  refine h.bind (h.accept_rel _) fun _ => ?_
  exact h.bind (endConstruct_rel h.toCongruence _ _) fun _ => h.node_rel _ _

theorem regionStmt_rel (hs : Q s s') : Q (regionStmt s) (regionStmt s') := by
  unfold regionStmt
  refine h.bind h.advance fun t => ?_
  refine h.bind (restOfLine_rel h.toCongruence _) fun (title, lineEnd) => ?_
  refine h.bind (skipBefore_rel h.toCongruence _) fun _ => ?_
  refine h.bind (statementList_rel h hs) fun body => ?_
  exact h.bind (endConstruct_rel h.toCongruence _ _) fun _ => h.node_rel _ _

/-! ### One statement -/

theorem statementBody_rel (he : Q e e') (hs : Q s s') :
    Q (statementBody e s) (statementBody e' s') := by
  unfold statementBody
  refine h.bind h.lexeme_rel fun l => ?_
  split
  · exact ifStmt_rel h he hs
  · exact caseStmt_rel h he hs
  · exact forStmt_rel h he hs
  · exact whileStmt_rel h he hs
  · exact repeatStmt_rel h he hs
  · exact oneWord_rel h.toCongruence _
  · exact oneWord_rel h.toCongruence _
  · exact leaveStmt_rel h.toCongruence he
  · exact gotoStmt_rel h.toCongruence
  · exact regionStmt_rel h hs
  · exact plainStmt_rel h he

end Parts

theorem statement_rel (h : RecoveryCongruence Q) {levels levels' : Nat}
    (hl : Levels Q levels levels') : Q (statement levels) (statement levels') := by
  induction hl with
  | zero => exact h.tooDeep
  | spent deep _ => exact deep _
  | succ hl ih => exact h.nested (statementBody_rel h (expression_rel h.toCongruence hl) ih)

end RecoveryCongruence

/-! ### Bodies -/

namespace GrammarCongruence

open Congruence RecoveryCongruence

section Parts

variable (h : GrammarCongruence Q N)
include h

theorem seesStray_rel (ends : List Keyword) : Q (seesStray ends) (seesStray ends) := by
  have look : Q (lexeme >>= fun l => recovers >>= fun b => pure (b && isStray ends l))
      (lexeme >>= fun l => recovers >>= fun b => pure (b && isStray ends l)) :=
    h.bind h.lexeme_rel fun l => h.bind h.mode fun b => h.pure _
  exact look

theorem afterStray_rel (hs : Q s s') (ends : List Keyword) (size : Nat) :
    Q (afterStray s ends size) (afterStray s' ends size) := by
  unfold afterStray
  refine h.bind (h.unexpected_rel _) fun e => ?_
  refine h.bind (h.report e) fun _ => ?_
  refine h.bind h.advance fun _ => ?_
  refine h.bind (h.accept_rel _) fun _ => ?_
  refine h.bind (h.statementList_rel hs) fun stmts => ?_
  exact h.bind (h.checkSizes_rel _ _) fun _ => h.pure _

theorem bodyWith_rel (hs : Q s s') (ends : List Keyword) :
    Q (bodyWith s ends) (bodyWith s' ends) := by
  unfold bodyWith
  refine h.bind (h.statementList_rel hs) fun first => ?_
  refine h.follow (h.many (seesStray_rel h ends) (fun size => ?_) first.length) fun others => h.pure _
  exact afterStray_rel h hs ends size

theorem finishText_rel : Q finishText finishText := by
  have look : Q (recovers >>= fun b => atEnd >>= fun e =>
        if (b && !e) = true then unexpected "end of input" >>= Grammar.report else expectEnd)
      (recovers >>= fun b => atEnd >>= fun e =>
        if (b && !e) = true then unexpected "end of input" >>= Grammar.report else expectEnd) := by
    refine h.bind h.mode fun b => h.bind h.atEnd_rel fun e => h.ite ?_ h.expectEnd_rel
    exact h.bind (h.unexpected_rel _) fun e => h.report e
  exact look

end Parts

section Levels

variable (h : GrammarCongruence Q) {levels levels' : Nat}
include h

theorem body_rel (hl : Levels Q levels levels') (ends : List Keyword) :
    Q (body levels ends) (body levels' ends) :=
  bodyWith_rel h (h.statement_rel hl) ends

theorem allStatements_rel (hl : Levels Q levels levels') (declared : List String) :
    Q (allStatements levels declared) (allStatements levels' declared) := by
  unfold allStatements
  refine h.bind (h.declaring declared (body_rel h hl [])) fun stmts => ?_
  exact h.bind (finishText_rel h) fun _ => h.pure _

end Levels

end GrammarCongruence

end Plc.Grammar
