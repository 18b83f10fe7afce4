/-
The words of statements are those they were read from.

Each rule for statements takes down the words of its result.  The semicolons that may be left out
are not among them, and neither are the signs before operands.

* `statementList_yields` — a list of statements;
* `statement_yields` — one statement, whatever is open around it.
-/
import Plc.Proofs.Yield.Expr
import Plc.Proofs.Yield.Semicolon

namespace Plc.Grammar

variable {x : Transcript} {ts : List Token} {ws : List Word} {b : Bool}
  {A B : (Nat → Token) → Prop} {α β : Type} {e : Rule Expr} {r : Rule Stmt}

/-- A rule that begins and ends between statements, and takes down the given words. -/
def StmtYields (x : Transcript) {α : Type} (r : Rule α) (yield : α → List Word) : Prop :=
  ∀ ws, Triple (Between x ws Any) r fun a => Between x (ws ++ yield a) Any

/-- A statement is built of what was read. -/
theorem Between.node {ws' : List Word} (start : Span) {build : Span → α} {yield : α → List Word}
    (same : ∀ span, ws' = ws ++ yield (build span)) :
    Triple (Between x ws' A) (node start build) fun a => Between x (ws ++ yield a) Any :=
  Between.stable.node start fun span _ _ h => same span ▸ h.any

/-- The reading ends at the first error. -/
theorem Between.strict {s : Setting} {c : Cursor} (h : Between x ws A s c) : s.recovers = false := by
  obtain ⟨ts, h, -⟩ := h
  rw [h.setting, x.strict]

/-! ### Lists of statements -/

section

variable (hr : StmtYields x r (Stmt.yield x.leaf))

include hr

theorem statementListUntil_yields {stop : Rule Bool}
    (hstop : ∀ ws, Triple (Between x ws Any) stop fun _ => Between x ws Any) :
    StmtYields x (statementListUntil stop r) (Stmt.yieldAll x.leaf) := by
  intro ws
  let I (ss : List Stmt) : Assertion := Between x (ws ++ Stmt.yieldAll x.leaf ss) Any
  refine Triple.passes.bind fun n => ?_
  refine (Triple.many (I := I) (J := I) (fun ss => ?_) (fun ss size => ?_) n 0 []).imp fun s c h => ?_
  · refine Triple.lexeme.bind fun l => .ite (fun _ => ?_) fun _ => ?_
    · exact Triple.pure (a := false) fun s c h => h.1
    · refine ((hstop _).imp fun s c h => h.1).bind fun y => .pure fun s c h => ?_
      cases y <;> exact h
  · refine Triple.bind (R := fun o => o.elim (fun _ _ => False) fun s' => I (ss ++ [s'])) ?_ fun o => ?_
    · refine Triple.strictly (fun s c h => h.strict) ((hr _).post fun s' s c h => ?_)
      show Between x (ws ++ Stmt.yieldAll x.leaf (ss ++ [s'])) Any s c
      rwa [Stmt.yieldAll_append, Stmt.yieldAll, Stmt.yieldAll, List.append_nil, ← List.append_assoc]
    · cases o with
      | none => exact .given (fun _ _ h => h) False.elim
      | some s' => exact (Triple.checkSize _ _).bind fun _ => .pure fun s c h => h
  · show Between x (ws ++ []) Any s c
    rwa [List.append_nil]

theorem statementList_yields : StmtYields x (statementList r) (Stmt.yieldAll x.leaf) :=
  statementListUntil_yields hr fun _ => .pure fun _ _ h => h

end

/-! ### Simple statements -/

section

variable (statements : x.norm = withoutOptional none)

include statements

/-- A statement ends with a semicolon. -/
theorem endWith {ws' : List Word} {start : Span} {build : Span → Stmt}
    (same : ∀ span, ws' ++ [.mark .semicolon] = ws ++ (build span).yield x.leaf) :
    Triple (Pending x ws' A) (do expectSemicolon; node start build)
      fun y => Between x (ws ++ y.yield x.leaf) Any :=
  (expectSemicolon_taken statements).bind fun _ =>
    Triple.imp (Between.node (A := Any) _ same) fun _ _ h => h.between

theorem assignmentOrCall_yields (he : Yields x e (Expr.yield x.leaf)) :
    Triple (Taken x ws false A) (assignmentOrCall e)
      fun y => Between x (ws ++ y.yield x.leaf) Any := by
  refine Taken.peek.bind fun start => (variableWith_taken he).bind fun v => ?_
  refine .given (fun s c h => h.1) fun spelled => ?_
  refine Triple.imp (P := Taken x (ws ++ v.yield x.leaf) true Any) ?_ fun s c h => h.2
  -- A call or an assignment; only what has a dotted name can be called.
  refine (Taken.sees _).bind fun call => .ite (fun _ => ?_) fun _ => ?_
  · split
    · exact Triple.bind_fails fun _ => .fail _
    · next name path =>
      refine (callArgs_taken he).bind fun args => (Triple.isDeclared _).bind fun known => ?_
      refine .ite (fun _ => ?_) fun _ => ?_
      · refine Triple.imp (endWith (A := Any) statements fun span => ?_) fun s c h => h.pending
        rw [Stmt.yield_invoke, List.append_assoc, List.append_assoc]
      · refine Triple.bind (R := fun _ => Taken x (ws ++ v.yield x.leaf ++
          parenWords (commaWords (args.map (Arg.yield x.leaf)))) true Any)
          (Taken.stable.node _ fun _ _ _ h => h) fun callSpan => ?_
        refine Triple.imp (endWith (A := Any) statements fun span => ?_) fun s c h => h.pending
        rw [Stmt.yield_call, spelled name path, List.append_assoc, List.append_assoc]
  · refine Taken.lexeme.bind fun l => ?_
    split
    · exact .failExpecting _
    · next op known =>
      have mark : l = .mark op.mark := by
        unfold AssignOp.ofLexeme? at known
        split at known
        all_goals first | (cases known; rfl) | cases known
      have facts : isKept true (.mark op.mark) = true ∧ (Lexeme.mark op.mark).endsOperand = false := by
        cases op <;> exact ⟨rfl, rfl⟩
      refine Taken.passTerminal op.mark rfl facts.1 (fun g hg => hg.2.trans mark) fun _ => ?_
      refine (Triple.imp (he (ws ++ v.yield x.leaf ++ [Word.mark op.mark])) fun s c h => ?_).bind fun y => ?_
      · rw [← facts.2]
        exact h.any
      · refine Triple.imp (endWith (A := Any) statements fun span => ?_) fun s c h => h.pending
        rw [Stmt.yield]
        simp only [List.append_assoc, List.singleton_append]
        rfl

theorem oneWord_yields {k : Keyword} {build : Span → Stmt} (plain : (Terminal.keyword k).isPlain = true)
    (kept : isKept false (.keyword k) = true) (opens : opensStatements k = true)
    (word : ∀ span, (build span).yield x.leaf = [.keyword k, .mark .semicolon])
    (known : ∀ g, A g → (g 0).lexeme = .keyword k) :
    Triple (Taken x ws false A) (oneWord build) fun y => Between x (ws ++ y.yield x.leaf) Any := by
  refine Opened.pass k plain kept opens known fun t => ?_
  refine Triple.imp (endWith (A := Any) statements fun span => ?_) fun s c h => h.pending
  rw [word, List.append_assoc]
  rfl

theorem leaveStmt_yields (he : Yields x e (Expr.yield x.leaf))
    (known : ∀ g, A g → (g 0).lexeme = .keyword .RETURN) :
    Triple (Taken x ws false A) (leaveStmt e) fun y => Between x (ws ++ y.yield x.leaf) Any := by
  refine Opened.pass Keyword.RETURN rfl rfl rfl known fun t => ?_
  refine Triple.lexeme.bind fun l => ?_
  refine Triple.imp (P := Opened x (ws ++ [Word.keyword .RETURN]) Any) ?_ fun s c h => h.1
  dsimp only
  have rest (value : Option Expr) : Triple (Pending x (ws ++ .keyword .RETURN ::
      value.elim [] (Expr.yield x.leaf)) Any) (do expectSemicolon; node t.span fun s => Stmt.leave s value)
      fun y => Between x (ws ++ y.yield x.leaf) Any := by
    refine endWith statements fun span => ?_
    cases value <;> simp [Stmt.yield]
  refine .ite (fun _ => ?_) fun _ => ?_
  · exact (rest none).imp fun s c h => h.pending
  · rw [map_eq_pure_bind, bind_assoc]
    refine ((he _).imp fun s c h => h.between.taken).bind fun y => (rest (some y)).imp fun s c h => ?_
    rw [List.append_assoc] at h
    exact h.pending

end

/-! ### Parts of constructs -/

theorem caseSelector_yields (he : Yields x e (Expr.yield x.leaf)) :
    Yields x (caseSelector e) (CaseSelector.yield x.leaf) := by
  intro ws
  refine Taken.peek.bind fun start => ((he ws).imp fun s c h => h.any).bind fun low => ?_
  refine (Taken.accept Mark.range rfl rfl).bind fun range => .ite (fun yes => ?_) fun no => ?_
  · subst yes
    refine (he _).bind fun high => Taken.node _ fun _ span => ?_
    rw [CaseSelector.yield]
    simp only [List.append_assoc, List.singleton_append]
    rfl
  · rw [Bool.not_eq_true] at no
    subst no
    exact Taken.node _ fun _ span => rfl

theorem elseBody_yields (hr : StmtYields x r (Stmt.yield x.leaf)) :
    StmtYields x (elseBody r) (Stmt.elseYield x.leaf) := by
  intro ws
  refine (Between.accept Keyword.ELSE rfl rfl rfl).bind fun yes => .ite (fun h => ?_) fun h => ?_
  · subst h
    refine Triple.map ((statementList_yields hr _).imp fun s c h => h.between) fun ss s c h => ?_
    rw [List.append_assoc] at h
    exact h
  · rw [Bool.not_eq_true] at h
    subst h
    refine .pure fun s c h => ?_
    rw [Stmt.elseYield, List.append_nil]
    exact h

theorem ifBranch_yields (he : Yields x e (Expr.yield x.leaf))
    (hr : StmtYields x r (Stmt.yield x.leaf)) (opener : Token) :
    Triple (Taken x ws false A) (ifBranch e r opener)
      fun y => Between x (ws ++ y.yield x.leaf) Any := by
  refine ((he ws).imp fun s c h => h.any).bind fun condition => ?_
  refine (Opened.expect Keyword.THEN rfl rfl rfl).bind fun _ => ?_
  refine ((statementList_yields hr _).imp fun s c h => h.between).bind fun body => ?_
  refine Between.node _ fun span => ?_
  rw [IfBranch.yield]
  simp only [List.append_assoc, List.singleton_append]
  rfl

theorem caseBranch_yields (he : Yields x e (Expr.yield x.leaf))
    (hr : StmtYields x r (Stmt.yield x.leaf)) :
    StmtYields x (caseBranch e r) (CaseBranch.yield x.leaf) := by
  intro ws
  refine Triple.imp (P := Taken x ws false Any) (Taken.peek.bind fun start => ?_) fun s c h => h.taken
  refine ((commaList_taken (caseSelector_yields he)).imp fun s c h => h.any).bind fun selectors => ?_
  refine (Opened.expect Mark.colon rfl rfl rfl).bind fun _ => ?_
  have stop (ws : List Word) : Triple (Between x ws Any)
      (do return beginsCaseLabel (← dialect) ((← tokensLeft).map Token.lexeme))
      fun _ => Between x ws Any := by
    rintro s c y c' h hrun
    cases hrun
    exact h
  refine ((statementListUntil_yields hr stop _).imp fun s c h => h.between).bind fun body => ?_
  refine Between.node _ fun span => ?_
  rw [CaseBranch.yield]
  simp only [List.append_assoc, List.singleton_append]
  rfl

/-- A name is never quoted here. -/
theorem expectAnyName_taken (expected : String) :
    Triple (Taken x ws false A) (expectAnyName expected) fun t s c =>
      t.lexeme = .name ∧ Taken x (ws ++ [.name t.text]) true Any s c := by
  refine Taken.lexeme.bind fun l => ?_
  split
  · refine (Taken.advance fun g hg => by rw [hg.2]; rfl).post fun t s c ⟨_, h⟩ => ?_
    have name : t.lexeme = .name := by
      obtain ⟨ts, h, -⟩ := h
      exact h.ahead.2
    refine ⟨name, ?_⟩
    have taken := h.taken.any
    rwa [name, Token.sign_name name] at taken
  · refine Taken.dialect (.ite (fun quoted => ?_) fun _ => .failExpecting _)
    rw [x.plain.1] at quoted
    cases quoted
  · exact .failExpecting _

/-! ### Constructs -/

section

variable (statements : x.norm = withoutOptional none) (he : Yields x e (Expr.yield x.leaf))
  (hr : StmtYields x r (Stmt.yield x.leaf))

include statements he hr

theorem ifStmt_yields (known : ∀ g, A g → (g 0).lexeme = .keyword .IF) :
    Triple (Taken x ws false A) (ifStmt e r) fun y => Between x (ws ++ y.yield x.leaf) Any := by
  refine Opened.pass Keyword.IF rfl rfl rfl known fun t => ?_
  refine ((ifBranch_yields he hr t).imp fun s c h => h.between.taken).bind fun first => ?_
  refine Triple.passes.bind fun n => ?_
  -- The words up to the branches read so far, which is the invariant of the loop.
  let before (bs : List IfBranch) : List Word :=
    ws ++ [Word.keyword .IF] ++ first.yield x.leaf ++ IfBranch.yieldAll x.leaf bs
  have elsifs : Triple (Between x (before []) Any) (many (sees Keyword.ELSIF) (fun size => do
      let opener ← advance
      let branch ← ifBranch e r opener
      checkSize (size + 1) branch.span
      return [branch]) n 0) fun bs => Between x (before bs) Any := by
    refine Triple.many (I := fun bs => Between x (before bs) Any) (J := fun bs =>
      Taken x (before bs) false fun f => (f 0).lexeme = .keyword .ELSIF) (fun bs => ?_)
      (fun bs size => ?_) n 0 []
    · refine (Triple.sees _).post fun more s c h => ?_
      cases more with
      | true =>
        exact (h.1.taken.and (B := fun f => (f 0).lexeme = .keyword .ELSIF)
          (Terminal.is_lexeme h.2)).weaken fun f hf => hf.2
      | false => exact h.1
    · refine Opened.pass Keyword.ELSIF rfl rfl rfl (fun g hg => hg) fun opener => ?_
      refine ((ifBranch_yields he hr opener).imp fun s c h => h.between.taken).bind fun branch => ?_
      refine (Triple.checkSize _ _).bind fun _ => .pure fun s c h => ?_
      simpa [before, IfBranch.yieldAll_append, IfBranch.yieldAll] using h
  refine (elsifs.imp fun s c h => ?_).bind fun elsifs => (elseBody_yields hr _).bind fun otherwise => ?_
  · simpa [before, IfBranch.yieldAll] using h
  refine ((endConstruct_taken statements t.span rfl (by decide)).imp fun s c h => h.taken).bind fun _ => ?_
  refine Between.node _ fun span => ?_
  rw [Stmt.yield]
  simp [before]

theorem caseStmt_yields (known : ∀ g, A g → (g 0).lexeme = .keyword .CASE) :
    Triple (Taken x ws false A) (caseStmt e r) fun y => Between x (ws ++ y.yield x.leaf) Any := by
  refine Opened.pass Keyword.CASE rfl rfl rfl known fun t => ?_
  refine ((he _).imp fun s c h => h.between.taken).bind fun selector => ?_
  refine (Opened.expect Keyword.OF rfl rfl rfl).bind fun _ => Triple.passes.bind fun n => ?_
  -- The words up to the branch that is read next. Each pass adds one branch to them.
  let before (bs : List CaseBranch) : List Word := ws ++ [Word.keyword .CASE] ++ selector.yield x.leaf ++
    [Word.keyword .OF] ++ CaseBranch.yieldAll x.leaf bs
  have branches : Triple (Between x (before []) Any) (many (do
      let l ← lexeme
      return !(l.isFinish || l.isAmong [.ELSE, .END_CASE])) (fun size => do
        let branch ← caseBranch e r
        checkSize (size + 1) branch.span
        return [branch]) n 0) fun bs => Between x (before bs) Any := by
    refine Triple.many (I := fun bs => Between x (before bs) Any)
      (J := fun bs => Between x (before bs) Any) (fun bs => ?_) (fun bs size => ?_) n 0 []
    · refine Triple.lexeme.bind fun l => .pure fun s c h => ?_
      cases !(l.isFinish || l.isAmong [.ELSE, .END_CASE]) <;> exact h.1
    · refine (caseBranch_yields he hr _).bind fun branch => ?_
      refine (Triple.checkSize _ _).bind fun _ => .pure fun s c h => ?_
      simpa [before, CaseBranch.yieldAll_append, CaseBranch.yieldAll] using h
  refine (branches.imp fun s c h => ?_).bind fun bs => (elseBody_yields hr _).bind fun otherwise => ?_
  · simpa [before, CaseBranch.yieldAll] using h.between
  refine ((endConstruct_taken statements t.span rfl (by decide)).imp fun s c h => h.taken).bind fun _ => ?_
  refine Between.node _ fun span => ?_
  rw [Stmt.yield]
  simp [before]

theorem whileStmt_yields (known : ∀ g, A g → (g 0).lexeme = .keyword .WHILE) :
    Triple (Taken x ws false A) (whileStmt e r) fun y => Between x (ws ++ y.yield x.leaf) Any := by
  refine Opened.pass Keyword.WHILE rfl rfl rfl known fun t => ?_
  refine ((he _).imp fun s c h => h.between.taken).bind fun condition => ?_
  refine (Opened.expect Keyword.DO rfl rfl rfl).bind fun _ => ?_
  refine ((statementList_yields hr _).imp fun s c h => h.between).bind fun body => ?_
  refine ((endConstruct_taken statements t.span rfl (by decide)).imp fun s c h => h.taken).bind fun _ => ?_
  refine Between.node _ fun span => ?_
  rw [Stmt.yield]
  simp

theorem repeatStmt_yields (known : ∀ g, A g → (g 0).lexeme = .keyword .REPEAT) :
    Triple (Taken x ws false A) (repeatStmt e r) fun y => Between x (ws ++ y.yield x.leaf) Any := by
  refine Opened.pass Keyword.REPEAT rfl rfl rfl known fun t => ?_
  refine ((statementList_yields hr _).imp fun s c h => h.between).bind fun body => ?_
  refine ((Opened.expect Keyword.UNTIL rfl rfl rfl).imp fun s c h => h.taken).bind fun _ => ?_
  refine ((he _).imp fun s c h => h.between.taken).bind fun condition => ?_
  have close : Triple (Taken x (ws ++ [Word.keyword .REPEAT] ++ Stmt.yieldAll x.leaf body ++
      [Word.keyword .UNTIL] ++ condition.yield x.leaf) true Any)
      ((do let _ ← accept Mark.semicolon; endConstruct .END_REPEAT t.span) >>= fun _ =>
        node t.span fun s => Stmt.repeatLoop s body condition)
      fun y => Between x (ws ++ y.yield x.leaf) Any := by
    refine (endRepeat_taken statements t.span).bind fun _ => Between.node _ fun span => ?_
    rw [Stmt.yield]
    simp
  simpa only [bind_assoc, Terminal.word_keyword] using close

theorem forStmt_yields (known : ∀ g, A g → (g 0).lexeme = .keyword .FOR) :
    Triple (Taken x ws false A) (forStmt e r) fun y => Between x (ws ++ y.yield x.leaf) Any := by
  refine Opened.pass Keyword.FOR rfl rfl rfl known fun t => ?_
  refine Triple.imp (P := Taken x (ws ++ [Word.keyword .FOR]) false Any) ?_ fun s c h => h.between.taken
  refine Taken.dialect ?_
  rw [x.plain.2.1]
  refine Triple.ite nofun fun _ => ?_
  dsimp only
  refine (expectAnyName_taken _).bind fun control => .given (fun s c h => h.1) fun name => ?_
  -- The counter is a bare name, so its name is what stands there.
  have text : control.nameText = control.text := by
    rw [Token.nameText, name]
  refine ((Taken.expect Mark.assign rfl rfl).imp fun s c h => h.2).bind fun _ => (he _).bind fun start => ?_
  refine (Taken.expect Keyword.TO rfl rfl).bind fun _ => (he _).bind fun stop => ?_
  -- The words up to the bounds, with the step if there is one.
  let before (step : Option Expr) : List Word := ws ++ [Word.keyword .FOR] ++ [Word.name control.text] ++
    [Word.mark .assign] ++ start.yield x.leaf ++ [Word.keyword .TO] ++ stop.yield x.leaf ++ step.elim []
        fun y => .keyword .BY :: y.yield x.leaf
  refine (Taken.accept Keyword.BY rfl rfl).bind fun by_ => ?_
  refine Triple.optional (R := fun step => Taken x (before step) true Any) (fun yes => ?_)
    (fun no s c h => ?_) fun step => ?_
  · subst yes
    refine (he _).post fun y s c h => ?_
    simpa [before] using h
  · rw [Bool.not_eq_true] at no
    subst no
    simpa [before] using h
  · refine (Opened.expect Keyword.DO rfl rfl rfl).bind fun _ => ?_
    refine ((statementList_yields hr _).imp fun s c h => h.between).bind fun body => ?_
    refine ((endConstruct_taken statements t.span rfl (by decide)).imp fun s c h => h.taken).bind fun _ => ?_
    refine Between.node _ fun span => ?_
    rw [text]
    cases step <;> simp [Stmt.yield, before]

omit hr in
/-- A statement that begins with no word of its own. -/
theorem plainStmt_yields : Triple (Between x ws A) (plainStmt e)
    fun y => Between x (ws ++ y.yield x.leaf) Any := by
  refine Triple.peek.bind fun t => .ite (fun semicolon => ?_) fun _ => ?_
  · have semicolon : t.lexeme = .mark .semicolon := Terminal.is_lexeme semicolon
    refine Triple.imp (P := Pending x ws fun f => (f 0).lexeme = .mark .semicolon)
      (Pending.pass statements (fun g hg => hg) fun _ => ?_) fun s c h => ?_
    · have build : Triple (Between x (ws ++ [Word.mark .semicolon]) Any) (node t.span Stmt.empty)
          fun y => Between x (ws ++ y.yield x.leaf) Any :=
        Between.node _ fun _ => rfl
      exact build.imp fun s c h => h.between
    · have known := h.1.and (B := fun f => (f 0).lexeme = .mark .semicolon) (by rw [h.2, semicolon])
      obtain ⟨ts, at_, words, rest⟩ := known.pending fun f hf => by rw [hf.2]; rfl
      exact ⟨ts, ⟨at_.setting, at_.parts, at_.sound, at_.stop, at_.ahead.2⟩, words, rest⟩
  · refine Triple.imp (P := Taken x ws false Any) ?_ fun s c h => h.1.taken.any
    refine Taken.dialect ((Taken.lexemeAt 1).bind fun next => .ite (fun label => ?_) fun _ => ?_)
    · rw [x.plain.2.2.1] at label
      cases label
    · exact .ite (fun _ => assignmentOrCall_yields statements he) fun _ => .failInvalid _

end

section

variable (statements : x.norm = withoutOptional none) (he : Yields x e (Expr.yield x.leaf))
  (hr : StmtYields x r (Stmt.yield x.leaf))

include statements he hr

theorem statementBody_yields : StmtYields x (statementBody e r) (Stmt.yield x.leaf) := by
  intro ws
  -- The dialect has no blocks, so that the words of labels and regions are names in it.
  have blocks {k : Keyword} (group : k.group = .blocks) : x.setting.dialect.reserves k = false := by
    unfold Dialect.reserves
    rw [group]
    exact x.plain.2.2.1
  refine Triple.lexeme.bind fun l => ?_
  have seen {s : Setting} {c : Cursor} (h : Between x ws Any s c ∧ (s.ahead c 0).lexeme = l) :
      Taken x ws false (fun f => (f 0).lexeme = l) s c :=
    (h.1.taken.and (B := fun f => (f 0).lexeme = l) h.2).weaken fun f hf => hf.2
  split
  · exact (ifStmt_yields statements he hr fun g hg => hg).imp fun s c h => seen h
  · exact (caseStmt_yields statements he hr fun g hg => hg).imp fun s c h => seen h
  · exact (forStmt_yields statements he hr fun g hg => hg).imp fun s c h => seen h
  · exact (whileStmt_yields statements he hr fun g hg => hg).imp fun s c h => seen h
  · exact (repeatStmt_yields statements he hr fun g hg => hg).imp fun s c h => seen h
  · exact (oneWord_yields statements (k := .EXIT) rfl rfl rfl (fun _ => rfl) fun g hg => hg).imp
      fun s c h => seen h
  · exact (oneWord_yields statements (k := .CONTINUE) rfl rfl rfl (fun _ => rfl) fun g hg => hg).imp
      fun s c h => seen h
  · exact (leaveStmt_yields statements he fun g hg => hg).imp fun s c h => seen h
  · refine .given (fun s c h => (seen h).reserved fun g hg => hg) fun reserved => ?_
    rw [blocks rfl] at reserved
    cases reserved
  · refine .given (fun s c h => (seen h).reserved fun g hg => hg) fun reserved => ?_
    rw [blocks rfl] at reserved
    cases reserved
  · exact (plainStmt_yields statements he).imp fun s c h => h.1

end

/-- A statement takes down its words, whatever is open around it. -/
theorem statement_yields (statements : x.norm = withoutOptional none) (levels : Nat) :
    StmtYields x (statement levels) (Stmt.yield x.leaf) := by
  induction levels with
  | zero => exact fun ws => .tooDeep
  | succ levels ih =>
    intro ws
    exact Between.stable.nested (statementBody_yields statements (expression_yields levels) ih ws)
      fun _ => Between.stable

/-- No token is stray where the reading ends at the first error. -/
theorem stray_never {P : Assertion} (strict : ∀ s c, P s c → s.recovers = false) (r : Rule Stmt)
    (ends : List Keyword) (n size : Nat) :
    Triple P (many (seesStray ends) (afterStray r ends) n size) fun others s c =>
      others = [] ∧ P s c := by
  refine Triple.imp (Triple.many (I := fun others s c => others = [] ∧ P s c)
    (J := fun _ _ _ => False) (fun others => ?_) (fun others size => .given (fun _ _ h => h) False.elim)
    n size []) fun s c h => ⟨rfl, h⟩
  intro s c more c' h hrun
  cases hrun
  rw [strict s c h.2, Bool.false_and]
  exact h

/-- Where the reading ends at the first error, so must the text after its statements. -/
theorem strictly_finishText {P : Assertion} {Q : Unit → Assertion}
    (strict : ∀ s c, P s c → s.recovers = false) (h : Triple P expectEnd Q) :
    Triple P finishText Q := by
  refine Triple.bind (R := fun s' s c => s'.recovers = false ∧ P s c) ?_ fun s' => ?_
  · intro s c s' c' hc hrun
    cases hrun
    exact ⟨strict _ _ hc, hc⟩
  · refine .given (fun s c h => h.1) fun known => Triple.atEnd.bind fun ended => ?_
    rw [known, Bool.false_and, if_neg Bool.false_ne_true]
    exact h.imp fun s c hc => hc.1.2

theorem body_yields (statements : x.norm = withoutOptional none) (levels : Nat)
    (ends : List Keyword) : StmtYields x (body levels ends) (Stmt.yieldAll x.leaf) := by
  intro ws
  refine (statementList_yields (statement_yields statements levels) ws).bind fun first => ?_
  refine Triple.passes.bind fun n => ?_
  refine (stray_never (fun s c h => h.strict) _ ends n _).bind fun others => .pure fun s c ⟨same, h⟩ => ?_
  rwa [same, List.append_nil]

/-- The statements of a text take down its words. -/
theorem allStatements_yields (statements : x.norm = withoutOptional none) (levels : Nat)
    (declared : List String) : Triple (Between x [] Any) (allStatements levels declared)
      fun ss _ _ => x.IsSound ∧ x.words x.all = Stmt.yieldAll x.leaf ss := by
  refine (Between.stable.declaring declared (body_yields statements levels [] [])
    fun _ => Between.stable).bind fun ss => ?_
  have ends : Triple (Between x ([] ++ Stmt.yieldAll x.leaf ss) Any) finishText
      fun _ _ _ => x.IsSound ∧ x.words x.all = Stmt.yieldAll x.leaf ss :=
    strictly_finishText (fun s c h => h.strict) (Taken.expectEnd.imp fun s c h => h.taken)
  exact ends.bind fun _ => .pure fun s c h => h

end Plc.Grammar
