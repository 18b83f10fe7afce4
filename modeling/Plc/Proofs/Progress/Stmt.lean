/-
Statements come to an end by themselves.

A statement always passes over a token.  The first one is spared for the error that the statement may
end with, and so a list of statements, in which errors are recovered from, has no more errors than
tokens.

* `statementListUntil`, `bodyWith` — lists of statements, and closing words that close nothing;
* `statement` — one statement, by induction on the number of tokens that are left.
-/
import Plc.Proofs.Progress.Expr

namespace Plc.Grammar.Ends

variable {α : Type} {ahead spare : Bool} {n : Nat}

/-! ### Lists of statements -/

section Statements

variable {st : Nat → Rule Stmt} (hs : Ends true n (fun _ => 1) true st)
include hs

theorem statementListUntil {stop : Rule Bool} (looks : Looks stop) :
    Ends ahead n (fun _ => 0) false fun levels => statementListUntil stop (st levels) := by
  unfold Grammar.statementListUntil
  refine manyAhead (.bind .lexeme fun l => .ite (.pure _) (looks.bind fun _ => .pure _))
    (fun s c ends seen => ?_) (fun size => ?_) 0
  · cases ended : endsStatements (s.next c).lexeme with
    | true =>
      replace seen : (if endsStatements (s.next c).lexeme = true then Pure.pure false
        else stop >>= fun b => Pure.pure !b : Rule Bool) s c = .ok true c := seen
      rw [ended, if_pos rfl] at seen
      cases seen
    | false =>
      simp only [endsStatements, Bool.or_eq_false_iff] at ended
      exact ended.1.1.1.1
  · refine (recovering hs).lead fun o => ?_
    cases o with
    | none => exact done rfl
    | some stmt => exact (checkSize _ _).next fun _ => done rfl

theorem statementList :
    Ends ahead n (fun _ => 0) false fun levels => statementList (st levels) :=
  statementListUntil hs (.pure false)

omit hs in
theorem checkSizes (size : Nat) (ss : List Stmt) :
    Ends ahead n (fun _ => 0) spare fun _ => checkSizes size ss := by
  induction ss generalizing ahead size with
  | nil => exact done rfl
  | cons s ss ih => exact (checkSize _ _).next fun _ => ih _

theorem afterStray (ends : List Keyword) (size : Nat) :
    Ends true n (fun _ => 1) false fun levels => afterStray (st levels) ends size := by
  unfold Grammar.afterStray
  refine look (.unexpected _) fun e => charge fun t => (accept _).next fun _ => ?_
  exact (statementList hs).next fun ss => (checkSizes _ ss).next fun _ => done rfl

theorem bodyWith (ends : List Keyword) :
    Ends ahead n (fun _ => 0) false fun levels => bodyWith (st levels) ends := by
  unfold Grammar.bodyWith
  refine (statementList hs).next fun first => ?_
  refine (manyAhead (.seesStray ends) (fun s c _ seen => ?_)
    (afterStray hs ends) first.length).follow fun _ => done rfl
  have stray : (s.recovers && isStray ends (s.next c).lexeme) = true :=
    (EStateM.Result.ok.inj seen).1
  simp only [isStray, Bool.and_eq_true, Bool.not_eq_true', Bool.or_eq_false_iff] at stray
  exact stray.2.1.2

end Statements

/-! ### Simple statements -/

theorem assignmentOrCall (n : Nat) :
    Ends false n (fun _ => 1) spare fun levels => assignmentOrCall (Grammar.expression levels) := by
  unfold Grammar.assignmentOrCall
  refine look .peek fun start => (variableWith fun m _ => expression m).lead fun target => ?_
  refine look (.sees _) fun call => ite (fun _ => ?_) fun _ => ?_
  · split
    · exact notCallable _ target
    · refine (callArgs (expression n)).next fun args => look (.isDeclared _) fun known =>
        ite (fun _ => ?_) fun _ => ?_
      · exact expectSemicolon.next fun _ => node fun _ => rfl
      · exact (node fun _ => rfl).next fun _ => expectSemicolon.next fun _ => node fun _ => rfl
  · refine look .lexeme fun l => ?_
    split
    · exact failExpecting _
    · exact step.next fun _ => (expression n).next fun _ => expectSemicolon.next fun _ =>
        node fun _ => rfl

theorem oneWord (build : Span → Stmt) : Ends true n (fun _ => 1) spare fun _ => oneWord build := by
  unfold Grammar.oneWord
  exact advance.lead fun _ => expectSemicolon.next fun _ => node fun _ => rfl

theorem leaveStmt :
    Ends true n (fun _ => 1) spare fun levels => leaveStmt (Grammar.expression levels) := by
  unfold Grammar.leaveStmt
  refine advance.lead fun t => look .lexeme fun l => ?_
  exact choose (Ends.pure none) (expression n).map fun value =>
    expectSemicolon.next fun _ => node fun _ => rfl

theorem gotoStmt : Ends true n (fun _ => 1) spare fun _ => gotoStmt := by
  unfold Grammar.gotoStmt
  exact advance.lead fun _ => (expectName _).next fun _ => expectSemicolon.next fun _ =>
    node fun _ => rfl

/-! ### Constructs -/

theorem endConstruct (close : Keyword) (opener : Span) :
    Ends ahead n (fun _ => 0) spare fun _ => endConstruct close opener := by
  unfold Grammar.endConstruct
  refine sees (advance.next fun _ => (accept _).next fun _ => done rfl) ?_
  exact look .atEnd fun _ => ite (fun _ => fail _) fun _ => failExpecting _

/-- A loop that goes on where a given token comes next. -/
theorem manySeen {item : Nat → Nat → Rule (List α)} {t : Terminal}
    (hitem : ∀ size, Ends true n (fun _ => 1) spare fun levels => item levels size) (size : Nat) :
    Ends ahead n (fun _ => 0) spare fun levels =>
      passes >>= fun p => Grammar.many (Grammar.sees t) (item levels) p size :=
  manyAhead (.sees t) (fun _ _ _ seen => Lexeme.goes_of_is (EStateM.Result.ok.inj seen).1) hitem
    size

section Constructs

variable {st : Nat → Rule Stmt}

theorem ifBranch (hs : Ends true n (fun _ => 1) true st) (opener : Token) :
    Ends false n (fun _ => 0) false fun levels =>
      ifBranch (Grammar.expression levels) (st levels) opener := by
  unfold Grammar.ifBranch
  exact (expression n).next fun _ => (expect _).next fun _ => (statementList hs).next fun _ =>
    node fun _ => rfl

theorem elseBody (hs : Ends true n (fun _ => 1) true st) :
    Ends false n (fun _ => 0) false fun levels => elseBody (st levels) := by
  unfold Grammar.elseBody
  exact (accept _).next fun _ => ite (fun _ => (statementList hs).map) fun _ => done rfl

variable (hs : ∀ m < n, Ends true m (fun _ => 1) true st)
include hs

theorem ifStmt : Ends true n (fun _ => 1) spare fun levels =>
    ifStmt (Grammar.expression levels) (st levels) := by
  unfold Grammar.ifStmt
  -- The first word is spared for an error that ends the construct, so that inside of it every token
  -- may pay for an error of the lists.
  refine advance.first fun m less t => (ifBranch (hs m less) t).next fun first => ?_
  refine (manySeen (fun size => ?_) 0).follow fun elsifs => ?_
  · exact advance.lead fun opener => (ifBranch (hs m less) opener).next fun branch =>
      (checkSize _ _).next fun _ => done rfl
  · exact (elseBody (hs m less)).next fun _ => (endConstruct _ _).next fun _ => node fun _ => rfl

omit hs in
theorem caseSelector : Ends false n (fun _ => 1) spare fun levels =>
    caseSelector (Grammar.expression levels) := by
  unfold Grammar.caseSelector
  refine look .peek fun start => (expression n).lead fun low => (accept _).next fun b =>
    ite (fun _ => ?_) fun _ => node fun _ => rfl
  exact (expression n).next fun _ => node fun _ => rfl

omit hs in
theorem caseBranch (hs : Ends true n (fun _ => 1) true st) :
    Ends false n (fun _ => 1) false fun levels =>
    caseBranch (Grammar.expression levels) (st levels) := by
  have stop : Looks (do return beginsCaseLabel (← dialect) ((← tokensLeft).map Token.lexeme)) :=
    Looks.dialect.bind fun _ => Looks.tokensLeft.bind fun _ => .pure _
  unfold Grammar.caseBranch
  exact look .peek fun start => (commaList caseSelector caseSelector.free).lead fun _ =>
    (expect _).next fun _ => (statementListUntil hs stop).next fun _ => node fun _ => rfl

theorem caseStmt : Ends true n (fun _ => 1) spare fun levels =>
    caseStmt (Grammar.expression levels) (st levels) := by
  unfold Grammar.caseStmt
  refine advance.first fun m less t => (expression m).next fun _ => (expect _).next fun _ => ?_
  refine (manyAhead (.bind .lexeme fun _ => .pure _) (fun s c _ seen => ?_)
    (fun size => ?_) 0).follow fun branches => ?_
  · have more := (EStateM.Result.ok.inj seen).1
    simp only [Bool.not_eq_true', Bool.or_eq_false_iff] at more
    exact more.1
  · exact any ((caseBranch (hs m less)).lead fun _ => (checkSize _ _).next fun _ => done rfl)
  · exact (elseBody (hs m less)).next fun _ => (endConstruct _ _).next fun _ => node fun _ => rfl

theorem forStmt : Ends true n (fun _ => 1) spare fun levels =>
    forStmt (Grammar.expression levels) (st levels) := by
  unfold Grammar.forStmt
  refine advance.first fun m less t => look .dialect fun d => optional (accept _) ?_
  refine (expectAnyName _).next fun control => (expect _).next fun _ =>
    (expression m).next fun start => (expect _).next fun _ => (expression m).next fun stop =>
      (accept _).next fun by_ => ?_
  refine choose (expression m).map (Ends.pure none) fun step => ?_
  exact (expect _).next fun _ => (statementList (hs m less)).next fun _ =>
    (endConstruct _ _).next fun _ => node fun _ => rfl

theorem whileStmt : Ends true n (fun _ => 1) spare fun levels =>
    whileStmt (Grammar.expression levels) (st levels) := by
  unfold Grammar.whileStmt
  exact advance.first fun m less t => (expression m).next fun _ => (expect _).next fun _ =>
    (statementList (hs m less)).next fun _ => (endConstruct _ _).next fun _ => node fun _ => rfl

theorem repeatStmt : Ends true n (fun _ => 1) spare fun levels =>
    repeatStmt (Grammar.expression levels) (st levels) := by
  unfold Grammar.repeatStmt
  exact advance.first fun m less t => (statementList (hs m less)).next fun _ =>
    (expect _).next fun _ => (expression m).next fun _ => (accept _).next fun _ =>
      (endConstruct _ _).next fun _ => node fun _ => rfl

omit hs in
theorem skipBefore (stop : Nat) : Ends ahead n (fun _ => 0) spare fun _ => skipBefore stop := by
  unfold Grammar.skipBefore
  refine (manyAhead (.bind .atEnd fun _ => .bind .peek fun _ => .pure _) (fun s c _ seen => ?_)
    (fun _ => advance.lead fun _ => done rfl) 0).follow fun _ => done rfl
  have more : (!(s.next c).lexeme.isFinish && decide ((s.next c).span.start < stop)) = true :=
    (EStateM.Result.ok.inj seen).1
  rw [Bool.and_eq_true, Bool.not_eq_true'] at more
  exact more.1

theorem regionStmt : Ends true n (fun _ => 1) spare fun levels => regionStmt (st levels) := by
  unfold Grammar.regionStmt
  exact advance.first fun m less t => look (.restOfLine _) fun _ => (skipBefore _).next fun _ =>
    (statementList (hs m less)).next fun _ => (endConstruct _ _).next fun _ => node fun _ => rfl

/-! ### One statement -/

omit hs in
theorem plainStmt : Ends false n (fun _ => 1) spare fun levels =>
    plainStmt (Grammar.expression levels) := by
  unfold Grammar.plainStmt
  refine peek (fun t => ?_) fun t finish => ?_
  · refine ite (fun _ => advance.lead fun _ => node fun _ => rfl) fun _ => ?_
    refine look .dialect fun d => look (.lexemeAt 1) fun l => ite (fun _ => ?_) fun _ => ?_
    · exact advance.lead fun _ => step.next fun _ => node fun _ => rfl
    · exact ite (fun _ => any (assignmentOrCall n)) fun _ => failInvalid _
  · simp only [finish, beginsVariable]
    refine off (look .dialect fun d => look (.lexemeAt 1) fun l => ?_)
    simp only [Lexeme.isName, Bool.and_false, Bool.false_and]
    exact off (off (failInvalid _))

theorem statementBody : Ends true n (fun _ => 1) spare fun levels =>
    statementBody (Grammar.expression levels) (st levels) := by
  unfold Grammar.statementBody
  refine look .lexeme fun l => ?_
  split
  · exact ifStmt hs
  · exact caseStmt hs
  · exact forStmt hs
  · exact whileStmt hs
  · exact repeatStmt hs
  · exact oneWord _
  · exact oneWord _
  · exact leaveStmt
  · exact gotoStmt
  · exact regionStmt hs
  · exact any plainStmt

end Constructs

theorem statement (n : Nat) : Ends true n (fun _ => 1) true statement := by
  -- Induction on a bound for the tokens that are left: what is nested comes behind a first word.
  induction n using Nat.strongRecOn with
  | ind n ih => exact deeper (fun levels => by rw [Grammar.statement]) (statementBody ih)

theorem body (ends : List Keyword) :
    Ends ahead n (fun _ => 0) false fun levels => body levels ends :=
  bodyWith (statement n) ends

end Plc.Grammar.Ends
