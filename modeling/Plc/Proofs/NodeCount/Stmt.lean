/-
The nodes of statements are counted.

Each rule for statements counts at least as many nodes as its result has; a statement that is
dropped after an error leaves its nodes counted.

* `statementList_builds`, `body_builds` — lists of statements and whole bodies;
* `statement_builds` — one statement.
-/
import Plc.Proofs.NodeCount.Expr

namespace Plc

theorem Stmt.flatMap_nodes (ss : List Stmt) : ss.flatMap Stmt.nodes = Stmt.nodesAll ss := by
  rw [Stmt.nodesAll_eq, List.flatMap_map]
  rfl

theorem Stmt.nodesAll_append (ss ss' : List Stmt) :
    Stmt.nodesAll (ss ++ ss') = Stmt.nodesAll ss ++ Stmt.nodesAll ss' := by
  rw [← Stmt.flatMap_nodes, List.flatMap_append, Stmt.flatMap_nodes, Stmt.flatMap_nodes]

/-- The nodes of one branch. -/
def IfBranch.nodes (b : IfBranch) : List Node := IfBranch.nodesAll [b]

/-- The nodes of one branch. -/
def CaseBranch.nodes (b : CaseBranch) : List Node := CaseBranch.nodesAll [b]

theorem IfBranch.flatMap_nodes (bs : List IfBranch) :
    bs.flatMap IfBranch.nodes = IfBranch.nodesAll bs := by
  rw [IfBranch.nodesAll_eq, List.flatMap_map]
  rfl

theorem CaseBranch.flatMap_nodes (bs : List CaseBranch) :
    bs.flatMap CaseBranch.nodes = CaseBranch.nodesAll bs := by
  rw [CaseBranch.nodesAll_eq, List.flatMap_map]
  rfl

namespace Grammar

variable {e : Rule Expr} {st : Rule Stmt} {known : List Node}

/-! ### Simple statements -/

theorem assignmentOrCall_builds (he : Counts e Expr.nodes) :
    Counts (assignmentOrCall e) Stmt.nodes := by
  refine Builds.peek.bind fun start => (variableWith_builds he).bind fun target => ?_
  refine (Builds.sees _).bind fun b => .ite ?_ ?_
  · split
    · exact notCallable_builds _ _ _
    · refine (callArgs_builds he).bind fun args => ?_
      refine Builds.bind (.of_countsUp (countsUp.isDeclared _)) fun declared => .ite ?_ ?_
      · exact Builds.expectSemicolon.bind fun _ => .count fun s => by simp [Stmt.nodes]
      · have place : Builds ByNumber (target.nodes ++ Arg.nodesAll args) (node start.span id)
            fun _ => .expr default :: Arg.nodesAll args := .count fun s => by simp
        refine place.bind fun callSpan => ?_
        exact Builds.expectSemicolon.bind fun _ => .count fun s => by simp [Stmt.nodes]
  · refine Builds.lexeme.bind fun l => ?_
    split
    · exact .failExpecting _
    · refine Builds.advance.bind fun _ => (he.frame byNumber _).bind fun value => ?_
      exact Builds.expectSemicolon.bind fun _ => .count fun s => by simp [Stmt.nodes]

theorem oneWord_builds {build : Span → Stmt} (h : ∀ s, (build s).nodes.length ≤ 1) :
    Counts (oneWord build) Stmt.nodes :=
  Builds.advance.bind fun _ => Builds.expectSemicolon.bind fun _ => .count h

theorem leaveStmt_builds (he : Counts e Expr.nodes) : Counts (leaveStmt e) Stmt.nodes := by
  refine Builds.advance.bind fun t => Builds.lexeme.bind fun l => ?_
  dsimp only
  split
  · exact Builds.expectSemicolon.bind fun _ => .count fun s => by simp [Stmt.nodes, Expr.nodesOpt]
  · rw [map_eq_pure_bind, bind_assoc]
    refine Builds.bind he fun x => Builds.expectSemicolon.bind fun _ => ?_
    exact .count fun s => by simp [Stmt.nodes, Expr.nodesOpt]

theorem gotoStmt_builds : Counts gotoStmt Stmt.nodes := by
  refine Builds.advance.bind fun t => (Builds.expectName _).bind fun label => ?_
  exact Builds.expectSemicolon.bind fun _ => .count fun s => by simp [Stmt.nodes]

theorem plainStmt_builds (he : Counts e Expr.nodes) : Counts (plainStmt e) Stmt.nodes := by
  refine Builds.peek.bind fun t => .ite ?_ ?_
  · exact Builds.advance.bind fun _ => .count fun s => by simp [Stmt.nodes]
  refine Builds.dialect.bind fun d => (Builds.lexemeAt _).bind fun next => .ite ?_ ?_
  · refine Builds.advance.bind fun _ => Builds.advance.bind fun _ => ?_
    exact .count fun s => by simp [Stmt.nodes]
  exact .ite (assignmentOrCall_builds he) (.failInvalid _)

/-! ### Lists of statements -/

section Lists

variable (hup : CountsUp st) (hs : Counts st Stmt.nodes)
include hup hs

theorem statementListUntil_builds {stop : Rule Bool} (hstop : CountsUp stop) :
    Builds ByNumber known (statementListUntil stop st) fun ss => known ++ Stmt.nodesAll ss := by
  refine Builds.passes.bind fun n => ?_
  have more : CountsUp do if endsStatements (← lexeme) then return false else return !(← stop) := by
    refine CountsUp.bind countsUp.lexeme_rel fun l => .ite (countsUp.pure _) ?_
    exact hstop.bind fun b => countsUp.pure _
  refine (Builds.many Stmt.nodes byNumber more (fun size => ?_) n 0).imp byNumber fun ss => ?_
  · refine (Builds.recovering hup hs).bind fun x => ?_
    cases x with
    | some s => exact (Builds.checkSize _ _).bind fun _ => .same (by simp)
    | none => exact .same rfl
  · rw [Stmt.flatMap_nodes]
    exact byNumber.refl _

theorem statementList_builds :
    Builds ByNumber known (statementList st) fun ss => known ++ Stmt.nodesAll ss :=
  statementListUntil_builds hup hs (countsUp.pure false)

/-- What is read after a stray token counts, too. -/
theorem bodyWith_builds (ends : List Keyword) :
    Counts (bodyWith st ends) Stmt.nodesAll := by
  refine (statementList_builds hup hs).bind fun first => Builds.passes.bind fun n => ?_
  refine (Builds.many Stmt.nodes byNumber (countsUp.seesStray_rel ends) (fun size => ?_) n _).bind
    fun others => .same ?_
  · refine Builds.bind (.of_countsUp (countsUp.unexpected_rel _)) fun e => ?_
    refine Builds.bind (.of_countsUp (countsUp.report e)) fun _ => ?_
    refine Builds.advance.bind fun _ => (Builds.accept _).bind fun _ => ?_
    refine (statementList_builds hup hs).bind fun ss => ?_
    refine Builds.bind (.of_countsUp (countsUp.checkSizes_rel _ _)) fun _ => .same ?_
    exact Stmt.flatMap_nodes ss
  · rw [Stmt.nodesAll_append, Stmt.flatMap_nodes, List.nil_append]

/-! ### Constructs -/

variable (he : Counts e Expr.nodes)

theorem elseBody_builds :
    Builds ByNumber known (elseBody st) fun ss => known ++ (ss.elim [] Stmt.nodesAll) := by
  refine (Builds.accept _).bind fun b => .ite ?_ (.same (List.append_nil _))
  rw [map_eq_pure_bind]
  exact (statementList_builds hup hs).bind fun ss => .same rfl

include he

theorem ifBranch_builds (opener : Token) :
    Counts (ifBranch e st opener) IfBranch.nodes := by
  refine Builds.bind he fun condition => (Builds.expect _).bind fun _ => ?_
  refine (statementList_builds hup hs).bind fun body => .count fun s => ?_
  simp [IfBranch.nodes, IfBranch.nodesAll]

theorem ifStmt_builds : Counts (ifStmt e st) Stmt.nodes := by
  refine Builds.advance.bind fun t => (ifBranch_builds hup hs he t).bind fun first => ?_
  refine Builds.passes.bind fun n => ?_
  refine (Builds.many IfBranch.nodes byNumber (countsUp.sees_rel _) (fun size => ?_)
    n 0).bind fun elsifs => ?_
  · refine Builds.advance.bind fun opener => (ifBranch_builds hup hs he opener).bind fun branch => ?_
    exact (Builds.checkSize _ _).bind fun _ => .same (by simp)
  refine (elseBody_builds hup hs).bind fun otherwise => ?_
  refine Builds.bind (.of_countsUp (countsUp.endConstruct_rel _ _)) fun _ => .count fun s => ?_
  cases first
  cases otherwise <;>
    simp [Stmt.nodes, IfBranch.flatMap_nodes, IfBranch.nodes, IfBranch.nodesAll]

omit hup hs in
theorem caseSelector_builds : Counts (caseSelector e) CaseSelector.nodes := by
  refine Builds.peek.bind fun start => Builds.bind he fun low => ?_
  refine (Builds.accept _).bind fun b => .ite ?_ ?_
  · refine (he.frame byNumber _).bind fun high => .count fun s => ?_
    simp [CaseSelector.nodes]
  · exact .count fun s => by simp [CaseSelector.nodes]

theorem caseBranch_builds : Counts (caseBranch e st) CaseBranch.nodes := by
  refine Builds.peek.bind fun start => ?_
  refine (Builds.commaList byNumber (caseSelector_builds he)).bind fun selectors => ?_
  refine (Builds.expect _).bind fun _ => ?_
  have stop : CountsUp do
      return beginsCaseLabel (← dialect) ((← tokensLeft).map Token.lexeme) :=
    CountsUp.bind countsUp.dialect fun d => CountsUp.bind countsUp.tokensLeft fun _ =>
      countsUp.pure _
  refine (statementListUntil_builds hup hs stop).bind fun body => .count fun s => ?_
  simp [CaseBranch.nodes, CaseBranch.nodesAll]

theorem caseStmt_builds : Counts (caseStmt e st) Stmt.nodes := by
  refine Builds.advance.bind fun t => Builds.bind he fun selector => ?_
  refine (Builds.expect _).bind fun _ => Builds.passes.bind fun n => ?_
  have more : CountsUp do
      let l ← lexeme
      return !(l.isFinish || l.isAmong [.ELSE, .END_CASE]) :=
    CountsUp.bind countsUp.lexeme_rel fun l => countsUp.pure _
  refine (Builds.many CaseBranch.nodes byNumber more (fun size => ?_) n 0).bind
    fun branches => ?_
  · refine (caseBranch_builds hup hs he).bind fun branch => ?_
    exact (Builds.checkSize _ _).bind fun _ => .same (by simp)
  refine (elseBody_builds hup hs).bind fun otherwise => ?_
  refine Builds.bind (.of_countsUp (countsUp.endConstruct_rel _ _)) fun _ => .count fun s => ?_
  cases otherwise <;> simp [Stmt.nodes, CaseBranch.flatMap_nodes]

theorem forStmt_builds : Counts (forStmt e st) Stmt.nodes := by
  refine Builds.advance.bind fun t => Builds.dialect.bind fun d => ?_
  have rest : Counts (do
      let control ← expectAnyName "loop variable"
      let _ ← expect Mark.assign
      let start ← e
      let _ ← expect Keyword.TO
      let stop ← e
      let step ← if ← accept Keyword.BY then some <$> e else pure none
      let _ ← expect Keyword.DO
      let body ← statementList st
      endConstruct .END_FOR t.span
      node t.span fun s => .forLoop s control.nameText start stop step body) Stmt.nodes := by
    refine (Builds.expectAnyName _).bind fun control => (Builds.expect _).bind fun _ => ?_
    refine Builds.bind he fun start => (Builds.expect _).bind fun _ => ?_
    refine (he.frame byNumber _).bind fun stop => (Builds.accept _).bind fun b => ?_
    refine .optional Expr.nodesOpt byNumber he rfl (fun _ => rfl) fun step => ?_
    refine (Builds.expect _).bind fun _ => ?_
    refine (statementList_builds hup hs).bind fun body => ?_
    refine Builds.bind (.of_countsUp (countsUp.endConstruct_rel _ _)) fun _ => .count fun s => ?_
    simp [Stmt.nodes]
  exact .ite ((Builds.accept _).bind fun _ => rest) rest

theorem whileStmt_builds : Counts (whileStmt e st) Stmt.nodes := by
  refine Builds.advance.bind fun t => Builds.bind he fun condition => ?_
  refine (Builds.expect _).bind fun _ => (statementList_builds hup hs).bind fun body => ?_
  refine Builds.bind (.of_countsUp (countsUp.endConstruct_rel _ _)) fun _ => .count fun s => ?_
  simp [Stmt.nodes]

theorem repeatStmt_builds : Counts (repeatStmt e st) Stmt.nodes := by
  refine Builds.advance.bind fun t => (statementList_builds hup hs).bind fun body => ?_
  refine (Builds.expect _).bind fun _ => (he.frame byNumber _).bind fun condition => ?_
  refine (Builds.accept _).bind fun _ => ?_
  refine Builds.bind (.of_countsUp (countsUp.endConstruct_rel _ _)) fun _ => .count fun s => ?_
  simp [Stmt.nodes]

omit he in
theorem regionStmt_builds : Counts (regionStmt st) Stmt.nodes := by
  refine Builds.advance.bind fun t => ?_
  refine Builds.bind (.of_countsUp (countsUp.restOfLine_rel _)) fun (title, lineEnd) => ?_
  refine Builds.bind (.of_countsUp (countsUp.skipBefore_rel _)) fun _ => ?_
  refine (statementList_builds hup hs).bind fun body => ?_
  refine Builds.bind (.of_countsUp (countsUp.endConstruct_rel _ _)) fun _ => .count fun s => ?_
  simp [Stmt.nodes]

/-! ### One statement -/

theorem statementBody_builds : Counts (statementBody e st) Stmt.nodes := by
  refine Builds.lexeme.bind fun l => ?_
  split
  · exact ifStmt_builds hup hs he
  · exact caseStmt_builds hup hs he
  · exact forStmt_builds hup hs he
  · exact whileStmt_builds hup hs he
  · exact repeatStmt_builds hup hs he
  · exact oneWord_builds fun s => by simp [Stmt.nodes]
  · exact oneWord_builds fun s => by simp [Stmt.nodes]
  · exact leaveStmt_builds he
  · exact gotoStmt_builds
  · exact regionStmt_builds hup hs
  · exact plainStmt_builds he

end Lists

theorem statement_builds (levels : Nat) : Counts (statement levels) Stmt.nodes := by
  induction levels with
  | zero => exact .tooDeep
  | succ levels ih =>
    exact .nested (statementBody_builds (countsUp.statement_rel (.refl levels)) ih
      (expression_builds levels))

theorem body_builds (levels : Nat) (ends : List Keyword) :
    Counts (body levels ends) Stmt.nodesAll :=
  bodyWith_builds (countsUp.statement_rel (.refl levels)) (statement_builds levels) ends

end Grammar

end Plc
