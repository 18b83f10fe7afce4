/-
Statements stand where they were read.

Each rule for statements lays out its result between the token it begins at and the last one it
reads.  A statement that is dropped after an error leaves a gap.

* `statementList_rows`, `body_lays` — lists of statements and whole bodies;
* `statement_lays` — one statement.
-/
import Plc.Proofs.Nesting.Expr

namespace Plc.Grammar

variable {e : Rule Expr} {st : Rule Stmt} {x : Setting} {b : Cursor} {m : Bool} {ns : List Node}

/-! ### Simple statements -/

theorem assignmentOrCall_lays (he : Lays e fun y => [.expr y]) :
    Lays (assignmentOrCall e) fun t => [.stmt t] := by
  intro x b hb
  refine AtCursor.peek (Triple.bind (variableWith_lays he x b hb) fun target => ?_)
  refine Triple.bind (Triple.look fun _ _ => rfl) fun called => .ite (fun _ => ?_) fun _ => ?_
  · split
    · exact notCallable_fails _ _
    · next name _ =>
      refine Triple.bind (callArgs_rows he) fun args => ?_
      refine Triple.bind (Triple.isDeclared _) fun declared => .ite (fun _ => ?_) fun _ => ?_
      · refine Triple.bind (Rows.quiet proceeds.expectSemicolon_rel) fun _ => ?_
        exact Rows.nodeOver (fun s => .stmt (.invoke s target args)) List.mem_cons_self rfl
          fun s => ⟨rfl, rfl, List.Sublist.refl _⟩
      -- the call is a node of its own below the statement
      · refine Triple.bind (Rows.nodeOver (g := fun s => [.expr (.call s name args)])
          (fun s => .expr (.call s name args)) List.mem_cons_self rfl
          fun s => ⟨rfl, rfl, List.sublist_cons_self _ _⟩) fun callSpan => ?_
        refine Triple.bind (Rows.quiet proceeds.expectSemicolon_rel) fun _ => ?_
        exact Rows.nodeOver (fun s => .stmt (.call s callSpan name args)) List.mem_cons_self rfl
          fun s => ⟨rfl, rfl, List.Sublist.refl _⟩
  · refine Triple.bind (Triple.look fun _ _ => rfl) fun l => ?_
    split
    · exact .failExpecting _
    · next op _ =>
      refine Triple.bind (Rows.quiet proceeds.advance) fun _ => ?_
      refine Triple.bind (Rows.lay he) fun value => ?_
      refine Triple.bind (Rows.quiet proceeds.expectSemicolon_rel) fun _ => ?_
      exact Rows.nodeOver (fun s => .stmt (.assignment s target op value)) List.mem_cons_self rfl
        fun s => ⟨rfl, rfl, List.Sublist.refl _⟩

theorem oneWord_opens {build : Span → Stmt}
    (h : ∀ s, (build s).span = s ∧ (Node.stmt (build s)).children = []) :
    Opens (oneWord build) fun t => [.stmt t] := by
  intro x b hb more
  refine AtCursor.advance hb more (Triple.bind (Rows.quiet proceeds.expectSemicolon_rel) fun _ => ?_)
  exact Rows.node (fun s => .stmt (build s)) fun s => ⟨rfl, (h s).1, (h s).2 ▸ .slnil⟩

theorem leaveStmt_opens (he : Lays e fun y => [.expr y]) :
    Opens (leaveStmt e) fun t => [.stmt t] := by
  intro x b hb more
  refine AtCursor.advance hb more (Triple.bind (Triple.look fun _ _ => rfl) fun l => ?_)
  have close (value : Option Expr) : Triple (Rows x b true (value.toList.map .expr)) (do
      expectSemicolon
      node (x.next b).span fun s => Stmt.leave s value) fun t => Rows x b false [.stmt t] := by
    refine Triple.bind (Rows.quiet proceeds.expectSemicolon_rel) fun _ => ?_
    exact Rows.node (fun s => .stmt (.leave s value)) fun s => ⟨rfl, rfl, List.Sublist.refl _⟩
  dsimp only
  split
  · exact close none
  · rw [map_eq_pure_bind, bind_assoc]
    exact Triple.bind (Rows.lay he) fun value => close (some value)

theorem gotoStmt_opens : Opens gotoStmt fun t => [.stmt t] := by
  intro x b hb more
  refine AtCursor.advance hb more (Triple.bind (Rows.quiet (proceeds.expectName_rel _)) fun label => ?_)
  refine Triple.bind (Rows.quiet proceeds.expectSemicolon_rel) fun _ => ?_
  exact Rows.node (fun s => .stmt (.goto s label.text)) fun s => ⟨rfl, rfl, List.Sublist.refl _⟩

theorem plainStmt_lays (he : Lays e fun y => [.expr y]) :
    Lays (plainStmt e) fun t => [.stmt t] := by
  intro x b hb
  refine AtCursor.peek (.ite (fun semicolon => ?_) fun _ => ?_)
  · refine AtCursor.advance hb (hb.some_of_lexeme (Lexeme.goes_of_is semicolon)) ?_
    exact Rows.node (fun s => .stmt (.empty s)) fun s => ⟨rfl, rfl, List.Sublist.refl _⟩
  refine Triple.bind (Triple.look fun _ _ => rfl) fun d => ?_
  refine Triple.bind (Triple.look fun _ _ => rfl) fun next => .ite (fun label => ?_) fun _ => ?_
  · have more : b.rest ≠ [] := by
      refine hb.some_of_lexeme ?_
      cases h : (x.next b).lexeme <;> simp [h, Lexeme.isName, Lexeme.isFinish] at label ⊢
    refine AtCursor.advance hb more (Triple.bind (Rows.quiet proceeds.advance) fun _ => ?_)
    exact Rows.node (fun s => .stmt (.label s _)) fun s => ⟨rfl, rfl, List.Sublist.refl _⟩
  · exact .ite (fun _ => assignmentOrCall_lays he x b hb) fun _ => .failInvalid _

/-! ### Lists of statements -/

section Lists

variable (hup : Proceeds st) (hs : Lays st fun t => [.stmt t])
include hup hs

theorem statementListUntil_rows {stop : Rule Bool} (hstop : Proceeds stop) :
    Triple (Rows x b m ns) (statementListUntil stop st) fun ss =>
      Rows x b m (ns ++ ss.map .stmt) := by
  refine Triple.bind Triple.passes fun n => Rows.many _ ?_ (fun size => ?_) n 0
  · refine Proceeds.bind proceeds.lexeme_rel fun l => .ite (proceeds.pure _) ?_
    exact hstop.bind fun yes => proceeds.pure _
  · intro x b hb
    refine Triple.bind (Rows.recovering hup hs x b hb) fun o => ?_
    cases o with
    | some t =>
      refine Triple.bind (Triple.checkSize _ _) fun _ => ?_
      exact .pure fun s c rows => rows
    | none => exact .pure fun s c rows => rows

theorem statementList_rows :
    Triple (Rows x b m ns) (statementList st) fun ss => Rows x b m (ns ++ ss.map .stmt) :=
  statementListUntil_rows hup hs (proceeds.pure false)

/-- The statements after a stray token come after it. -/
theorem bodyWith_lays (ends : List Keyword) : Lays (bodyWith st ends) (List.map .stmt) := by
  refine Lays.of_rows fun x b => ?_
  refine Triple.bind (statementList_rows hup hs) fun first => Triple.bind Triple.passes fun n => ?_
  refine Triple.bind (Rows.many Node.stmt (proceeds.seesStray_rel ends) (fun size => ?_) n _)
    fun others => ?_
  · refine Lays.of_rows fun x b => ?_
    refine Triple.bind (Rows.quiet (proceeds.unexpected_rel _)) fun err => ?_
    refine Triple.bind (Rows.quiet (proceeds.report err)) fun _ => ?_
    refine Triple.bind (Rows.quiet proceeds.advance) fun _ => ?_
    refine Triple.bind (Rows.accept _) fun _ => ?_
    refine Triple.bind (statementList_rows hup hs) fun ss => ?_
    refine Triple.bind (Rows.quiet (proceeds.checkSizes_rel _ _)) fun _ => ?_
    exact .pure fun s c rows => rows
  · refine .pure fun s c rows => ?_
    rwa [List.map_append]

/-! ### Constructs -/

variable (he : Lays e fun y => [.expr y])

theorem elseBody_rows : Triple (Rows x b m ns) (elseBody st) fun otherwise =>
    Rows x b m (ns ++ (otherwise.getD []).map .stmt) := by
  refine Triple.bind (Rows.accept _) fun yes => .ite (fun _ => ?_) fun _ => ?_
  · exact (statementList_rows hup hs).map fun ss s c rows => rows
  · exact .pure fun s c rows => by rwa [Option.getD_none, List.map_nil, List.append_nil]

include he

theorem ifBranch_rows : Triple (Rows x b true []) (ifBranch e st (x.next b)) fun branch =>
    Rows x b false [.ifBranch branch] := by
  refine Triple.bind (Rows.lay he) fun condition => ?_
  refine Triple.bind (Rows.quiet (proceeds.expect_rel _)) fun _ => ?_
  refine Triple.bind (statementList_rows hup hs) fun body => ?_
  exact Rows.node (fun s => .ifBranch (.mk s condition body)) fun s => ⟨rfl, rfl, List.Sublist.refl _⟩

theorem ifStmt_opens : Opens (ifStmt e st) fun t => [.stmt t] := by
  intro x b hb more
  refine AtCursor.advance hb more (Triple.bind (ifBranch_rows hup hs he) fun first => ?_)
  refine Triple.bind Triple.passes fun n => ?_
  refine Triple.bind (Rows.manySeen Node.ifBranch _ (fun size => ?_) n 0) fun elsifs => ?_
  · intro x b hb more
    refine AtCursor.advance hb more (Triple.bind (ifBranch_rows hup hs he) fun branch => ?_)
    exact Triple.bind (Triple.checkSize _ _) fun _ => .pure fun s c rows => rows
  refine Triple.bind (elseBody_rows hup hs) fun otherwise => ?_
  refine Triple.bind (Rows.quiet (proceeds.endConstruct_rel _ _)) fun _ => ?_
  exact Rows.nodeOver (fun s => .stmt (.ifThen s first elsifs otherwise)) List.mem_cons_self rfl
    fun s => ⟨rfl, rfl, List.Sublist.refl _⟩

omit hup hs in
theorem caseSelector_lays : Lays (caseSelector e) fun l => [.selector l] := by
  intro x b hb
  refine AtCursor.peek (Triple.bind (he x b hb) fun low => ?_)
  refine Triple.bind (Rows.accept _) fun yes => .ite (fun _ => ?_) fun _ => ?_
  · refine Triple.bind (Rows.lay he) fun high => ?_
    exact Rows.nodeOver (fun s => .selector (.range s low high)) List.mem_cons_self rfl
      fun s => ⟨rfl, rfl, List.Sublist.refl _⟩
  · exact Rows.nodeOver (fun s => .selector (.value s low)) List.mem_cons_self rfl
      fun s => ⟨rfl, rfl, List.Sublist.refl _⟩

theorem caseBranch_lays : Lays (caseBranch e st) fun branch => [.caseBranch branch] := by
  intro x b hb
  refine AtCursor.peek ?_
  have stop : Proceeds do
      return beginsCaseLabel (← dialect) ((← tokensLeft).map Token.lexeme) :=
    Proceeds.bind proceeds.dialect fun d => Proceeds.bind proceeds.tokensLeft fun _ =>
      proceeds.pure _
  -- a branch has a label, so that the first token of the branch is passed over
  have labels : Triple (Rows x b false []) (commaList (caseSelector e) CaseSelector.span)
      fun ls => Rows x b true (ls.map .selector) := by
    intro s c ls c' rows hrun
    have laid := Rows.commaList (caseSelector_lays he) rows hrun
    obtain ⟨first, more, rfl⟩ := List.exists_cons_of_ne_nil (Rows.commaList_ne_nil hrun)
    exact laid.of_mem List.mem_cons_self rfl
  refine AtCursor.rows hb (Triple.bind labels fun selectors => ?_)
  refine Triple.bind (Rows.quiet (proceeds.expect_rel _)) fun _ => ?_
  refine Triple.bind (statementListUntil_rows hup hs stop) fun body => ?_
  exact Rows.node (fun s => .caseBranch (.mk s selectors body)) fun s => ⟨rfl, rfl, List.Sublist.refl _⟩

theorem caseStmt_opens : Opens (caseStmt e st) fun t => [.stmt t] := by
  intro x b hb more
  refine AtCursor.advance hb more (Triple.bind (Rows.lay he) fun selector => ?_)
  refine Triple.bind (Rows.quiet (proceeds.expect_rel _)) fun _ => Triple.bind Triple.passes fun n => ?_
  have goesOn : Proceeds do
      let l ← lexeme
      return !(l.isFinish || l.isAmong [.ELSE, .END_CASE]) :=
    Proceeds.bind proceeds.lexeme_rel fun l => proceeds.pure _
  refine Triple.bind (Rows.many Node.caseBranch goesOn (fun size => ?_) n 0) fun branches => ?_
  · intro x b hb
    refine Triple.bind (caseBranch_lays hup hs he x b hb) fun branch => ?_
    exact Triple.bind (Triple.checkSize _ _) fun _ => .pure fun s c rows => rows
  refine Triple.bind (elseBody_rows hup hs) fun otherwise => ?_
  refine Triple.bind (Rows.quiet (proceeds.endConstruct_rel _ _)) fun _ => ?_
  exact Rows.nodeOver (fun s => .stmt (.caseOf s selector branches otherwise)) List.mem_cons_self rfl
    fun s => ⟨rfl, rfl, List.Sublist.refl _⟩

theorem forStmt_opens : Opens (forStmt e st) fun t => [.stmt t] := by
  intro x b hb more
  refine AtCursor.advance hb more (Triple.bind (Triple.look fun _ _ => rfl) fun d => ?_)
  have rest : Triple (Rows x b true []) (do
      let control ← expectAnyName "loop variable"
      let _ ← expect Mark.assign
      let start ← e
      let _ ← expect Keyword.TO
      let stop ← e
      let step ← if ← accept Keyword.BY then some <$> e else pure none
      let _ ← expect Keyword.DO
      let body ← statementList st
      endConstruct .END_FOR (x.next b).span
      node (x.next b).span fun s => .forLoop s control.nameText start stop step body)
      fun t => Rows x b false [.stmt t] := by
    refine Triple.bind (Rows.quiet (proceeds.expectAnyName_rel _)) fun control => ?_
    refine Triple.bind (Rows.quiet (proceeds.expect_rel _)) fun _ => ?_
    refine Triple.bind (Rows.lay he) fun start => ?_
    refine Triple.bind (Rows.quiet (proceeds.expect_rel _)) fun _ => ?_
    refine Triple.bind (Rows.lay he) fun stop => ?_
    refine Triple.bind (Rows.accept _) fun yes => ?_
    refine Rows.optional he fun step => ?_
    refine Triple.bind (Rows.quiet (proceeds.expect_rel _)) fun _ => ?_
    refine Triple.bind (statementList_rows hup hs) fun body => ?_
    refine Triple.bind (Rows.quiet (proceeds.endConstruct_rel _ _)) fun _ => ?_
    exact Rows.node (fun s => .stmt (.forLoop s control.nameText start stop step body))
      fun s => ⟨rfl, rfl, List.Sublist.refl _⟩
  exact .ite (fun _ => Triple.bind (Rows.accept _) fun _ => rest) fun _ => rest

theorem whileStmt_opens : Opens (whileStmt e st) fun t => [.stmt t] := by
  intro x b hb more
  refine AtCursor.advance hb more (Triple.bind (Rows.lay he) fun condition => ?_)
  refine Triple.bind (Rows.quiet (proceeds.expect_rel _)) fun _ => ?_
  refine Triple.bind (statementList_rows hup hs) fun body => ?_
  refine Triple.bind (Rows.quiet (proceeds.endConstruct_rel _ _)) fun _ => ?_
  exact Rows.node (fun s => .stmt (.whileLoop s condition body))
    fun s => ⟨rfl, rfl, List.Sublist.refl _⟩

/-- The condition of a `REPEAT` comes after its statements, in the text as in the tree. -/
theorem repeatStmt_opens : Opens (repeatStmt e st) fun t => [.stmt t] := by
  intro x b hb more
  refine AtCursor.advance hb more (Triple.bind (statementList_rows hup hs) fun body => ?_)
  refine Triple.bind (Rows.quiet (proceeds.expect_rel _)) fun _ => ?_
  refine Triple.bind (Rows.lay he) fun condition => Triple.bind (Rows.accept _) fun _ => ?_
  refine Triple.bind (Rows.quiet (proceeds.endConstruct_rel _ _)) fun _ => ?_
  exact Rows.node (fun s => .stmt (.repeatLoop s body condition))
    fun s => ⟨rfl, rfl, List.Sublist.refl _⟩

omit he in
theorem regionStmt_opens : Opens (regionStmt st) fun t => [.stmt t] := by
  intro x b hb more
  refine AtCursor.advance hb more ?_
  refine Triple.bind (Rows.quiet (proceeds.restOfLine_rel _)) fun (title, lineEnd) => ?_
  refine Triple.bind (Rows.quiet (proceeds.skipBefore_rel _)) fun _ => ?_
  refine Triple.bind (statementList_rows hup hs) fun body => ?_
  refine Triple.bind (Rows.quiet (proceeds.endConstruct_rel _ _)) fun _ => ?_
  exact Rows.node (fun s => .stmt (.region s (String.ofList title) body))
    fun s => ⟨rfl, rfl, List.Sublist.refl _⟩

/-! ### One statement -/

theorem statementBody_lays : Lays (statementBody e st) fun t => [.stmt t] := by
  intro x b hb
  refine AtCursor.lexeme ?_
  split
  · next h => exact ifStmt_opens hup hs he x b hb (hb.some_of_eq h rfl)
  · next h => exact caseStmt_opens hup hs he x b hb (hb.some_of_eq h rfl)
  · next h => exact forStmt_opens hup hs he x b hb (hb.some_of_eq h rfl)
  · next h => exact whileStmt_opens hup hs he x b hb (hb.some_of_eq h rfl)
  · next h => exact repeatStmt_opens hup hs he x b hb (hb.some_of_eq h rfl)
  · next h => exact oneWord_opens (fun s => ⟨rfl, rfl⟩) x b hb (hb.some_of_eq h rfl)
  · next h => exact oneWord_opens (fun s => ⟨rfl, rfl⟩) x b hb (hb.some_of_eq h rfl)
  · next h => exact leaveStmt_opens he x b hb (hb.some_of_eq h rfl)
  · next h => exact gotoStmt_opens x b hb (hb.some_of_eq h rfl)
  · next h => exact regionStmt_opens hup hs x b hb (hb.some_of_eq h rfl)
  · exact plainStmt_lays he x b hb

end Lists

theorem statement_lays (levels : Nat) : Lays (statement levels) fun t => [.stmt t] := by
  induction levels with
  | zero => exact .tooDeep
  | succ levels ih =>
    exact .nested (statementBody_lays (proceeds.statement_rel (.refl levels)) ih
      (expression_lays levels))

/-- All the statements of a body stand side by side. -/
theorem body_lays (levels : Nat) (ends : List Keyword) : Lays (body levels ends) (List.map .stmt) :=
  bodyWith_lays (proceeds.statement_rel (.refl levels)) (statement_lays levels) ends

end Plc.Grammar
