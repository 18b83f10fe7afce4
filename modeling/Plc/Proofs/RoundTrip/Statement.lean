/-
Statements are read back.

A list of statements ends at a word that no statement begins with, and inside a branch of
a `CASE` statement also at a label.  Every statement is closed by a word or mark of its
own, so whatever follows does not matter to it.

* `Stmt.ReadsBack` — the words are told from a label and an end, and are read as the statement;
* `statementList_reads`, `elsifs_reads`, `branches_reads` — lists of statements and branches;
* `Stmt.readsBack` — the words of printable statements are read back.
-/
import Plc.Proofs.RoundTrip.Label

namespace Plc

open Grammar Lexed

/-- The words of the statement do not end a list, and are read as the statement; only the target of
a jump may look like a label. -/
structure Stmt.ReadsBack (d : Dialect) (declared : List String) (s : Stmt) : Prop where
  begins : ∀ rest, endsStatements (ahead (s.words d ++ rest) 0) = false
  unlabelled : (d.namedCaseLabels = true → s.isTarget = false) →
    ∀ rest, startsBranch d (s.words d ++ rest) = false
  reads : ∀ levels rest, Reads d [declared] (statement levels) (·.bare = s.bare)
    (s.words d ++ rest) rest

/-- The words of the branch are read as the branch. -/
def IfBranch.ReadsBack (d : Dialect) (declared : List String) (b : IfBranch) : Prop :=
  ∀ levels rest opener, endsStatements (ahead rest 0) = true →
    Reads d [declared] (ifBranch (expression levels) (statement levels) opener)
      (·.bare = b.bare) (b.words d ++ rest) rest

/-- The words of the branch begin with a label, and are read as the branch. -/
structure CaseBranch.ReadsBack (d : Dialect) (declared : List String) (b : CaseBranch) : Prop where
  begins : ∀ rest, startsBranch d (b.words d ++ rest) = true
  reads : ∀ levels rest, endsStatements (ahead rest 0) = true ∨ startsBranch d rest = true →
    Reads d [declared] (caseBranch (expression levels) (statement levels))
      (·.bare = b.bare) (b.words d ++ rest) rest

/-- No reserved word but those of operators goes on with an expression. -/
theorem Stops.keyword {k : Keyword} {ws : List Word} {least : Nat}
    (h : BinaryOp.ofLexeme? (.keyword k) = none) : Stops least (.keyword k :: ws) :=
  ⟨rfl, fun op same => by rw [show ahead _ 0 = .keyword k from rfl, h] at same; cases same⟩

section

variable {d : Dialect} {declared : List String} {rest : List Word}

/-! ### Lists -/

/-- Statements are read up to where their list ends. -/
theorem statementListUntil_reads {stop : Rule Bool} {stops : List Word → Bool}
    (looks : ∀ ws, Reads d [declared] stop (· = stops ws) ws ws)
    {ss : List Stmt} (h : ∀ s ∈ ss, s.ReadsBack d declared)
    (goes : ∀ s ∈ ss, ∀ rest, stops (s.words d ++ rest) = false)
    (ends : endsStatements (ahead rest 0) = true ∨ stops rest = true) (levels : Nat) :
    Reads d [declared] (statementListUntil stop (statement levels))
      (fun as => Stmt.bareAll as = Stmt.bareAll ss) (Stmt.wordsAll d ss ++ rest) rest := by
  unfold statementListUntil
  refine Reads.passes.bind fun n _ => ?_
  -- The size grows along the list, so the induction is for every size.
  generalize 0 = size
  induction ss generalizing n size with
  | nil =>
    refine Reads.many_done (.look .lexeme ?_) ?_ n size
    · by_cases last : endsStatements (ahead rest 0) = true
      · exact .ite_pos last (.pure rfl)
      · exact .ite_neg last (.look (looks rest) (.pure (by rw [ends.resolve_left last]; rfl)))
    · rfl
  | cons s ss ih =>
    have first := h s List.mem_cons_self
    rw [Stmt.wordsAll, List.append_assoc]
    have going := first.begins (Stmt.wordsAll d ss ++ rest)
    refine Reads.many_more (P := fun a => a.bare = s.bare) (.look .lexeme (.ite_neg ?_ ?_))
      (fun size => ?_) (fun n size => ih (fun s hs => h s (List.mem_cons_of_mem _ hs))
        (fun s hs => goes s (List.mem_cons_of_mem _ hs)) n size) ?_ n size
    · rw [going]
      exact Bool.false_ne_true
    · exact .look (looks _) (.pure (by rw [goes s List.mem_cons_self]; rfl))
    · refine ((first.reads levels _).recovering _ _).bind ?_
      rintro _ ⟨s', rfl, same⟩
      exact (Reads.checkSize _ _).bind fun _ _ => .pure ⟨s', rfl, same⟩
    · intro s' ss' same same'
      rw [Stmt.bareAll_cons, Stmt.bareAll_cons, same, same']

theorem statementList_reads {ss : List Stmt} (h : ∀ s ∈ ss, s.ReadsBack d declared)
    (ends : endsStatements (ahead rest 0) = true) (levels : Nat) :
    Reads d [declared] (statementList (statement levels))
      (fun as => Stmt.bareAll as = Stmt.bareAll ss) (Stmt.wordsAll d ss ++ rest) rest :=
  statementListUntil_reads (fun _ => .pure rfl) h (fun _ _ _ => rfl)
    (.inl ends) levels

/-- The branches after the first are read. -/
theorem elsifs_reads {bs : List IfBranch} (h : ∀ b ∈ bs, b.ReadsBack d declared)
    (ends : endsStatements (ahead rest 0) = true) (last : (ahead rest 0).is Keyword.ELSIF = false)
    (levels n size : Nat) :
    Reads d [declared]
      (many (sees Keyword.ELSIF) (fun size => do
        let opener ← advance
        let branch ← ifBranch (expression levels) (statement levels) opener
        checkSize (size + 1) branch.span
        return [branch]) n size)
      (fun as => IfBranch.bareAll as = IfBranch.bareAll bs) (IfBranch.wordsAll d bs ++ rest) rest := by
  induction bs generalizing n size with
  | nil =>
    refine Reads.many_done ((Reads.sees _).mono fun _ same => same.trans last) ?_ n size
    rfl
  | cons b bs ih =>
    rw [IfBranch.wordsAll, List.cons_append, List.append_assoc]
    -- A body ends before the next condition, or before what comes behind the last one.
    have next : endsStatements (ahead (IfBranch.wordsAll d bs ++ rest) 0) = true := by
      cases bs with
      | nil => exact ends
      | cons b bs => rfl
    refine Reads.many_more (P := fun a => a.bare = b.bare) (Reads.sees _) (fun size => ?_)
      (fun n size => ih (fun b hb => h b (List.mem_cons_of_mem _ hb)) n size) ?_ n size
    · refine Reads.advance.bind fun opener _ => ?_
      refine (h b List.mem_cons_self levels _ opener next).bind fun b' same => ?_
      exact (Reads.checkSize _ _).bind fun _ _ => .pure ⟨b', rfl, same⟩
    · intro b' bs' same same'
      rw [IfBranch.bareAll_cons, IfBranch.bareAll_cons, same, same']

/-- The branches of a `CASE` statement are read. -/
theorem branches_reads {bs : List CaseBranch} (h : ∀ b ∈ bs, b.ReadsBack d declared)
    (last : ahead rest 0 = .keyword .ELSE ∨ ahead rest 0 = .keyword .END_CASE)
    (levels n size : Nat) :
    Reads d [declared]
      (many (do
        let l ← lexeme
        return !(l.isFinish || l.isAmong [.ELSE, .END_CASE])) (fun size => do
        let branch ← caseBranch (expression levels) (statement levels)
        checkSize (size + 1) branch.span
        return [branch]) n size)
      (fun as => CaseBranch.bareAll as = CaseBranch.bareAll bs)
      (CaseBranch.wordsAll d bs ++ rest) rest := by
  induction bs generalizing n size with
  | nil =>
    refine Reads.many_done (.look .lexeme ?_) ?_ n size
    · refine .pure ?_
      show (!((ahead rest 0).isFinish || (ahead rest 0).isAmong [.ELSE, .END_CASE])) = false
      obtain same | same := last
      · rw [same]
        rfl
      · rw [same]
        rfl
    · rfl
  | cons b bs ih =>
    have first := h b List.mem_cons_self
    rw [CaseBranch.wordsAll, List.append_assoc]
    -- A body ends where the next branch begins, or where there is none.
    have next : endsStatements (ahead (CaseBranch.wordsAll d bs ++ rest) 0) = true ∨
        startsBranch d (CaseBranch.wordsAll d bs ++ rest) = true := by
      cases bs with
      | nil =>
        left
        show endsStatements (ahead rest 0) = true
        obtain same | same := last
        · rw [same]
          rfl
        · rw [same]
          rfl
      | cons b bs =>
        right
        rw [CaseBranch.wordsAll, List.append_assoc]
        exact (h b (List.mem_cons_of_mem _ List.mem_cons_self)).begins _
    refine Reads.many_more (P := fun a => a.bare = b.bare) (.look .lexeme ?_) (fun size => ?_)
      (fun n size => ih (fun b hb => h b (List.mem_cons_of_mem _ hb)) n size) ?_ n size
    · refine .pure ?_
      rw [ahead_of_startsBranch (first.begins _)]
      rfl
    · refine (first.reads levels _ next).bind fun b' same => ?_
      exact (Reads.checkSize _ _).bind fun _ _ => .pure ⟨b', rfl, same⟩
    · intro b' bs' same same'
      rw [CaseBranch.bareAll_cons, CaseBranch.bareAll_cons, same, same']

/-! ### Parts of constructs -/

theorem endConstruct_reads (close : Keyword) (opener : Span) :
    Reads d [declared] (endConstruct close opener) (fun _ => True)
      (closingWords close ++ rest) rest := by
  refine .look (.sees _) (.ite_pos ?_ ?_)
  · exact beq_self_eq_true close
  · exact Reads.advance.bind fun _ _ => (Reads.accept rfl).bind fun _ _ => .pure trivial

theorem elseBody_reads {ss : List Stmt} (h : ∀ s ∈ ss, s.ReadsBack d declared)
    (ends : endsStatements (ahead rest 0) = true) (levels : Nat) :
    Reads d [declared] (elseBody (statement levels))
      (fun o => ∃ as, o = some as ∧ Stmt.bareAll as = Stmt.bareAll ss)
      (.keyword .ELSE :: (Stmt.wordsAll d ss ++ rest)) rest :=
  .look (.accept rfl) (.ite_pos rfl ((statementList_reads h ends levels).map fun as same =>
    ⟨as, rfl, same⟩))

theorem not_elseBody (last : (ahead rest 0).is Keyword.ELSE = false) (levels : Nat) :
    Reads d [declared] (elseBody (statement levels)) (· = none) rest rest :=
  .look (.not_accept last) (.ite_neg Bool.false_ne_true (.pure rfl))

theorem IfBranch.readsBack_mk {s : Span} {condition : Expr} {body : List Stmt}
    (hc : condition.ReadsBack d) (hb : ∀ s ∈ body, s.ReadsBack d declared) :
    (IfBranch.mk s condition body).ReadsBack d declared := by
  intro levels rest opener ends
  rw [words, List.append_assoc]
  have test := hc.isItem [declared] levels (.keyword .THEN :: (Stmt.wordsAll d body ++ rest))
    (Stops.of_none rfl rfl)
  refine test.bind fun condition' same => (Reads.expect rfl).bind fun _ _ => ?_
  refine (statementList_reads hb ends levels).bind fun body' same' => (Reads.node _ _).mono ?_
  rintro _ ⟨s, rfl⟩
  rw [bare, bare, same, same']

theorem CaseBranch.readsBack_mk {s : Span} {selectors : List CaseSelector} {body : List Stmt}
    (hs : ∀ s ∈ selectors, s.Labels d) (labelled : selectors ≠ [])
    (hb : ∀ s ∈ body, s.ReadsBack d declared)
    (plain : d.namedCaseLabels = true → ∀ s ∈ body, s.isTarget = false) :
    (CaseBranch.mk s selectors body).ReadsBack d declared := by
  constructor
  · intro rest
    rw [words, List.append_assoc]
    exact CaseSelector.begins_all hs labelled _
  · intro levels rest ends
    rw [words, List.append_assoc]
    refine (Reads.peekAt 0).bind fun start _ => ?_
    have labels : Reads d [declared]
        (commaList (caseSelector (expression levels)) CaseSelector.span)
        (fun as => as.map CaseSelector.bare = selectors.map CaseSelector.bare)
        (commaWords (selectors.map (CaseSelector.words d)) ++ .mark .colon :: (Stmt.wordsAll d body ++ rest))
        (.mark .colon :: (Stmt.wordsAll d body ++ rest)) :=
      .commaList labelled (fun s hs' => CaseSelector.isItem (hs s hs') [declared] levels)
        (fun _ => .inl rfl) (.inr rfl) rfl
    refine labels.bind fun selectors' same => (Reads.expect rfl).bind fun _ _ => ?_
    -- No statement of the body is taken for the next label.
    have goes (s : Stmt) (hs : s ∈ body) (rest : List Word) :
        startsBranch d (s.words d ++ rest) = false :=
      (hb s hs).unlabelled (fun named => plain named s hs) rest
    refine (statementListUntil_reads (startsBranch_reads [declared]) hb goes ends levels).bind
      fun body' same' => (Reads.node _ _).mono ?_
    rintro _ ⟨s, rfl⟩
    rw [bare, bare, same, same']

/-! ### Statements -/

namespace Stmt

theorem ReadsBack.of_keyword {s : Stmt} {k : Keyword} {ws : List Word}
    (words : s.words d = .keyword k :: ws) (opens : endsStatements (.keyword k) = false)
    (h : ∀ levels rest, Reads d [declared]
      (statementBody (expression levels) (statement levels)) (·.bare = s.bare)
      (.keyword k :: (ws ++ rest)) rest) : s.ReadsBack d declared := by
  constructor
  · intro rest
    rw [words]
    exact opens
  · intro _ rest
    rw [words]
    rfl
  · intro levels rest
    rw [words]
    cases levels with
    | zero => exact .tooDeep
    | succ levels => exact .nested (h levels rest)

/-- A word and a semicolon. -/
theorem oneWord_reads (k : Keyword) (build : Span → Stmt) :
    Reads d [declared] (oneWord build) (fun s => ∃ p, s = build p) (closingWords k ++ rest)
      rest :=
  Reads.advance.bind fun _ _ => Reads.expectSemicolon.bind fun _ _ => Reads.node _ _

theorem readsBack_exitLoop (s : Span) : (exitLoop s).ReadsBack d declared := by
  refine .of_keyword (k := .EXIT) rfl rfl fun levels rest => .look .lexeme ?_
  exact (oneWord_reads .EXIT .exitLoop).mono (by rintro _ ⟨s, rfl⟩; rfl)

theorem readsBack_nextPass (s : Span) : (nextPass s).ReadsBack d declared := by
  refine .of_keyword (k := .CONTINUE) rfl rfl fun levels rest => .look .lexeme ?_
  exact (oneWord_reads .CONTINUE .nextPass).mono (by rintro _ ⟨s, rfl⟩; rfl)

theorem readsBack_leave_none (s : Span) : (leave s none).ReadsBack d declared := by
  refine .of_keyword (k := .RETURN) rfl rfl fun levels rest => .look .lexeme ?_
  refine Reads.advance.bind fun _ _ => .look .lexeme (.ite_pos rfl (.look (.pure rfl) ?_))
  refine Reads.expectSemicolon.bind fun _ _ => (Reads.node _ _).mono ?_
  rintro _ ⟨s, rfl⟩
  rfl

theorem endsStatements_of_opensExpression {l : Lexeme} (h : opensExpression l = true) :
    endsStatements l = false := by
  cases l with
  | keyword k => cases k <;> first | rfl | cases h
  | finish => cases h
  | _ => rfl

theorem readsBack_leave_some {s : Span} {x : Expr} (hx : x.ReadsBack d) (opens : Opens (x.words d 0)) :
    (leave s (some x)).ReadsBack d declared := by
  refine .of_keyword (k := .RETURN) rfl rfl fun levels rest => .look .lexeme ?_
  have value := hx.isItem [declared] levels (.mark .semicolon :: rest) (Stops.of_none rfl rfl)
  obtain ⟨w, ws, same, first, -⟩ := opens
  rw [List.append_assoc]
  refine Reads.advance.bind fun _ _ => .look .lexeme ?_
  -- The first word of a value neither ends the statement nor the list around it.
  have given : ¬((ahead (x.words d 0 ++ ([Word.mark .semicolon] ++ rest)) 0).is Mark.semicolon ||
      endsStatements (ahead (x.words d 0 ++ ([Word.mark .semicolon] ++ rest)) 0)) = true := by
    rw [same]
    show ¬(w.lexeme.is Mark.semicolon || endsStatements w.lexeme) = true
    rw [not_is_of first rfl, endsStatements_of_opensExpression first]
    exact Bool.false_ne_true
  have kept : Reads d [declared] (some <$> expression levels)
      (fun o => ∃ x', o = some x' ∧ x'.bare = x.bare) (x.words d 0 ++ Word.mark .semicolon :: rest)
      (.mark .semicolon :: rest) := value.map fun x' same => ⟨x', rfl, same⟩
  refine .ite_neg given (kept.bind ?_)
  rintro _ ⟨x', rfl, hx'⟩
  refine Reads.expectSemicolon.bind fun _ _ => (Reads.node _ _).mono ?_
  rintro _ ⟨s, rfl⟩
  rw [bare, bare, Option.map_some, Option.map_some, hx']

theorem readsBack_empty (s : Span) : (empty s).ReadsBack d declared := by
  constructor
  · exact fun rest => rfl
  · exact fun _ rest => rfl
  · intro levels rest
    cases levels with
    | zero => exact .tooDeep
    | succ levels =>
      refine .nested (.look .lexeme (Reads.peek.bind fun t ht => ?_))
      rw [show t.lexeme = .mark .semicolon from congrArg Word.lexeme ht]
      refine .ite_pos rfl (Reads.advance.bind fun _ _ => (Reads.node _ _).mono ?_)
      rintro _ ⟨s, rfl⟩
      rfl

/-- The target of jumps, which is no label where labels have no names. -/
theorem readsBack_label {name : String} (s : Span) (hd : d.blocks = true) :
    (label s name).ReadsBack d declared := by
  constructor
  · exact fun rest => rfl
  · intro plain rest
    have unnamed : d.namedCaseLabels = false := by
      rw [← Bool.not_eq_true]
      exact fun named => nomatch plain named
    show (d.namedCaseLabels && _) = false
    rw [unnamed, Bool.false_and]
  · intro levels rest
    cases levels with
    | zero => exact .tooDeep
    | succ levels =>
      refine .nested (.look .lexeme (Reads.peek.bind fun t ht => ?_))
      rw [show t.lexeme = .name from congrArg Word.lexeme ht,
        show t.text = name from congrArg Word.text ht]
      refine .ite_neg Bool.false_ne_true (.look .dialect (.look (.lexemeAt 1) (.ite_pos ?_ ?_)))
      · rw [hd]
        rfl
      refine Reads.advance.bind fun _ _ => Reads.advance.bind fun _ _ => (Reads.node _ _).mono ?_
      rintro _ ⟨s, rfl⟩
      rfl

theorem readsBack_goto {name : String} (s : Span) : (goto s name).ReadsBack d declared := by
  refine .of_keyword (k := .GOTO) rfl rfl fun levels rest => .look .lexeme ?_
  refine Reads.advance.bind fun _ _ => (Reads.expectName _ _).bind fun t ht => ?_
  refine Reads.expectSemicolon.bind fun _ _ => (Reads.node _ _).mono ?_
  rintro _ ⟨s, rfl⟩
  rw [bare, bare, show t.text = name from congrArg Word.text ht]

/-- A statement that begins with a variable is an assignment or a call. -/
theorem ReadsBack.of_variable {s : Stmt} {w : Word} {ws : List Word} (words : s.words d = w :: ws)
    (opens : opensVariable w.lexeme = true)
    (noTarget : w.lexeme.isName = true → ∀ rest, (ahead (ws ++ rest) 0).is Mark.colon = false)
    (plain : ∀ rest, startsBranch d (s.words d ++ rest) = false)
    (h : ∀ levels rest, Reads d [declared] (assignmentOrCall (expression levels))
      (·.bare = s.bare) (s.words d ++ rest) rest) : s.ReadsBack d declared := by
  refine ⟨fun rest => ?_, fun _ => plain, fun levels rest => ?_⟩
  · rw [words]
    exact endsStatements_of_opensExpression (opensExpression_of_opensVariable opens)
  cases levels with
  | zero => exact .tooDeep
  | succ levels =>
    have body := h levels rest
    rw [words] at body ⊢
    -- A name with a colon would be the target of jumps.
    have noLabel : ¬(d.blocks && w.lexeme.isName && (ahead (w :: ws ++ rest) 1).is Mark.colon) = true := by
      intro target
      rw [Bool.and_eq_true, Bool.and_eq_true] at target
      rw [show (ahead (w :: ws ++ rest) 1).is Mark.colon = false from noTarget target.1.2 rest] at target
      cases target.2
    have begins : beginsVariable w.lexeme = true := by
      obtain same | ⟨n, same⟩ | same | ⟨a, same⟩ := opensVariable_cases opens
      all_goals
        rw [same]
        rfl
    have plainly : Reads d [declared] (plainStmt (expression levels)) (·.bare = s.bare)
        (w :: ws ++ rest) rest := by
      refine Reads.peek.bind fun t ht => ?_
      rw [show t.lexeme = w.lexeme from congrArg Word.lexeme ht]
      refine .ite_neg ?_ (.look .dialect (.look (.lexemeAt 1) (.ite_neg noLabel (.ite_pos begins body))))
      rw [not_is_of opens rfl]
      exact Bool.false_ne_true
    refine .nested (.look .lexeme ?_)
    obtain same | ⟨n, same⟩ | same | ⟨a, same⟩ := opensVariable_cases opens
    all_goals
      rw [show ahead (w :: ws ++ rest) 0 = _ from same]
      exact plainly

theorem not_colon_of_access {ws ws' : List Word} (second : ∀ v ∈ ws.head?, isAccess v.lexeme = true)
    (h : (ahead ws' 0).is Mark.colon = false) : (ahead (ws ++ ws') 0).is Mark.colon = false := by
  cases ws with
  | nil => exact h
  | cons v vs => exact not_is_of (second v rfl) rfl

theorem readsBack_assignment {s : Span} {target : Variable} {op : AssignOp} {value : Expr}
    (ht : target.Printable d) (hv : value.ReadsBack d) :
    (assignment s target op value).ReadsBack d declared := by
  obtain ⟨w, ws, same, first, -, access⟩ := target.opens ht
  -- The statement begins with its target, and it has to be seen that this is taken for no label.
  refine .of_variable (w := w) (by rw [words, same]; rfl) first (fun name rest => ?_)
    (fun rest => ?_) fun levels rest => ?_
  · refine (congrArg (fun vs => (ahead vs 0).is Mark.colon) (List.append_assoc ..)).trans ?_
    refine not_colon_of_access (access name) ?_
    cases op <;> rfl
  · rw [words, List.append_assoc]
    exact Variable.not_label ht (.inr ⟨op, rfl⟩)
  rw [words, List.append_assoc, List.cons_append, List.append_assoc]
  refine (Reads.peekAt 0).bind fun start _ => ?_
  have left : Reads d [declared] (variableWith (expression levels)) (·.bare = target.bare)
      (target.words d ++ Word.mark op.mark :: (value.words d 0 ++ ([Word.mark .semicolon] ++ rest)))
      (.mark op.mark :: (value.words d 0 ++ ([Word.mark .semicolon] ++ rest))) :=
    (Variable.readsBack target ht).whole (by cases op <;> rfl)
  refine left.bind fun target' same => .look (.sees _) (.ite_neg ?_ (.look .lexeme ?_))
  · cases op <;> exact Bool.false_ne_true
  have known : AssignOp.ofLexeme? (.mark op.mark) = some op := AssignOp.ofLexeme?_mark op
  split
  · next none => cases known.symm.trans none
  next op' again =>
  cases known.symm.trans again
  have right := hv.isItem [declared] levels (.mark .semicolon :: rest) (Stops.of_none rfl rfl)
  refine Reads.advance.bind fun _ _ => right.bind fun value' same' => ?_
  refine Reads.expectSemicolon.bind fun _ _ => (Reads.node _ _).mono ?_
  rintro _ ⟨s, rfl⟩
  rw [bare, bare, same, same']

/-- A call of a name that is not declared. -/
theorem readsBack_call {s callSpan : Span} {name : String} {args : List Arg}
    (path : IsDotted d name) (free : ∀ r ∈ (segments name).head?, r ∉ declared)
    (visible : Arg.Visible args) (hargs : Arg.PrintableAll d args) :
    (call s callSpan name args).ReadsBack d declared := by
  obtain ⟨w, ws, same, first, -, access⟩ := pathWords_opens (d := d) name
  refine .of_variable (w := w) (by rw [words, same]; rfl) first (fun name rest => ?_)
    (fun rest => ?_) fun levels rest => ?_
  · refine (congrArg (fun vs => (ahead vs 0).is Mark.colon) (List.append_assoc ..)).trans ?_
    exact not_colon_of_access (access name) rfl
  · rw [words, List.append_assoc]
    exact pathWords_not_label path _
  rw [words, List.append_assoc, List.append_assoc]
  refine (Reads.peekAt 0).bind fun start _ => (Expr.path_reads path).bind fun v hv => ?_
  refine .look (.sees _) (.ite_pos rfl ?_)
  obtain ⟨named, root⟩ := hv
  obtain ⟨n, ns, same, -⟩ := path.root
  rw [named]
  refine (callArgs_reads (Arg.isItemAll args hargs) (Arg.opensAll args hargs) visible _ _ _).bind
    fun args' same' => ?_
  rw [root, same]
  -- The root of the path is not declared, so the call stays a call by name.
  have undeclared : ([declared].any fun names => names.contains n) = false := by
    have outside := free n (by rw [same]; rfl)
    simpa using outside
  refine .look (Reads.isDeclared n) (.ite_neg (by rw [undeclared]; exact Bool.false_ne_true) ?_)
  refine (Reads.node _ _).bind fun callSpan' _ => Reads.expectSemicolon.bind fun _ _ => ?_
  refine (Reads.node _ _).mono ?_
  rintro _ ⟨s, rfl⟩
  rw [bare_call, bare_call, same']

/-- A call of a declared name. -/
theorem readsBack_invoke {s : Span} {callee : Variable} {args : List Arg} (hc : callee.Printable d)
    (path : callee.path?.isSome = true) (known : ∀ r ∈ callee.root?, r ∈ declared)
    (visible : Arg.Visible args) (hargs : Arg.PrintableAll d args) :
    (invoke s callee args).ReadsBack d declared := by
  obtain ⟨w, ws, same, first, -, access⟩ := callee.opens hc
  refine .of_variable (w := w) (by rw [words, same]; rfl) first (fun name rest => ?_)
    (fun rest => ?_) fun levels rest => ?_
  · refine (congrArg (fun vs => (ahead vs 0).is Mark.colon) (List.append_assoc ..)).trans ?_
    exact not_colon_of_access (access name) rfl
  · rw [words, List.append_assoc]
    exact Variable.not_label hc (.inl rfl)
  rw [words, List.append_assoc, List.append_assoc]
  refine (Reads.peekAt 0).bind fun start _ => ?_
  refine ((Variable.readsBack callee hc).whole rfl).bind fun callee' same => ?_
  refine .look (.sees _) (.ite_pos rfl ?_)
  obtain ⟨name, named⟩ := Option.isSome_iff_exists.1 path
  obtain ⟨root, rooted⟩ := Option.isSome_iff_exists.1 (Variable.root?_isSome_of_path? named)
  -- The path and its root do not depend on places, so they are those of the callee that was
  -- printed.
  have named' : callee'.path? = some name := by
    rw [← Variable.path?_bare, same, Variable.path?_bare, named]
  have rooted' : callee'.root? = some root := by
    rw [← Variable.root?_bare, same, Variable.root?_bare, rooted]
  rw [named']
  refine (callArgs_reads (Arg.isItemAll args hargs) (Arg.opensAll args hargs) visible _ _ _).bind
    fun args' same' => ?_
  rw [rooted', Option.getD_some]
  have inside : ([declared].any fun names => names.contains root) = true := by
    have listed := known root (by rw [rooted]; rfl)
    simpa using listed
  refine .look (Reads.isDeclared root) (.ite_pos inside ?_)
  refine Reads.expectSemicolon.bind fun _ _ => (Reads.node _ _).mono ?_
  rintro _ ⟨s, rfl⟩
  rw [bare_invoke, bare_invoke, same, same']

/-! ### Constructs -/

theorem readsBack_whileLoop {s : Span} {condition : Expr} {body : List Stmt}
    (hc : condition.ReadsBack d) (hb : ∀ s ∈ body, s.ReadsBack d declared) :
    (whileLoop s condition body).ReadsBack d declared := by
  refine .of_keyword (k := .WHILE) (by rw [words]) rfl fun levels rest => .look .lexeme ?_
  rw [List.append_assoc, List.cons_append, List.append_assoc]
  refine Reads.advance.bind fun _ _ => (hc.isItem _ levels _ (.keyword rfl)).bind fun c' same => ?_
  refine (Reads.expect rfl).bind fun _ _ => ?_
  refine (statementList_reads hb (by rfl) levels).bind fun body' same' => ?_
  refine (endConstruct_reads .END_WHILE _).bind fun _ _ => (Reads.node _ _).mono ?_
  rintro _ ⟨s, rfl⟩
  rw [bare, bare, same, same']

theorem readsBack_repeatLoop {s : Span} {condition : Expr} {body : List Stmt}
    (hc : condition.ReadsBack d) (hb : ∀ s ∈ body, s.ReadsBack d declared) :
    (repeatLoop s body condition).ReadsBack d declared := by
  refine .of_keyword (k := .REPEAT) (by rw [words]) rfl fun levels rest => .look .lexeme ?_
  rw [List.append_assoc, List.cons_append, List.append_assoc]
  refine Reads.advance.bind fun _ _ => ?_
  refine (statementList_reads hb (by rfl) levels).bind fun body' same' => ?_
  refine (Reads.expect rfl).bind fun _ _ => ?_
  refine (hc.isItem _ levels _ (.keyword rfl)).bind fun c' same => ?_
  refine .look (.not_accept rfl) ?_
  refine (endConstruct_reads .END_REPEAT _).bind fun _ _ => (Reads.node _ _).mono ?_
  rintro _ ⟨s, rfl⟩
  rw [bare, bare, same, same']

/-- The words of the step of a loop. -/
def stepWords (d : Dialect) : Option Expr → List Word
  | some x => .keyword .BY :: x.words d 0
  | none => []

/-- A loop has a step exactly when `BY` comes. -/
theorem step_reads {step : Option Expr} (hs : ∀ x ∈ step, x.ReadsBack d) (levels : Nat) :
    Reads d [declared]
      (do if ← accept Keyword.BY then some <$> expression levels else pure none)
      (fun o => o.map Expr.bare = step.map Expr.bare)
      (stepWords d step ++ .keyword .DO :: rest) (.keyword .DO :: rest) := by
  cases step with
  | none => exact .look (.not_accept rfl) (.ite_neg Bool.false_ne_true (.pure rfl))
  | some x =>
    refine .look (.accept rfl) (.ite_pos rfl ?_)
    refine ((hs x rfl).isItem _ levels _ (.keyword rfl)).map fun x' same => ?_
    rw [Option.map_some, Option.map_some, same]

theorem words_forLoop {s : Span} {control : String} {start stop : Expr} {step : Option Expr}
    {body : List Stmt} : (forLoop s control start stop step body).words d =
      .keyword .FOR :: .name control :: .mark .assign :: (start.words d 0 ++
        .keyword .TO :: (stop.words d 0 ++ (stepWords d step ++
          .keyword .DO :: (Stmt.wordsAll d body ++ closingWords .END_FOR)))) := by
  cases step with
  | none =>
    rw [words]
    rfl
  | some x =>
    rw [words]
    rfl

theorem readsBack_forLoop {s : Span} {control : String} {start stop : Expr} {step : Option Expr}
    {body : List Stmt} (hstart : start.ReadsBack d) (hstop : stop.ReadsBack d)
    (hstep : ∀ x ∈ step, x.ReadsBack d) (hb : ∀ s ∈ body, s.ReadsBack d declared) :
    (forLoop s control start stop step body).ReadsBack d declared := by
  refine .of_keyword (k := .FOR) words_forLoop rfl fun levels rest => .look .lexeme ?_
  simp only [List.cons_append, List.append_assoc]
  refine Reads.advance.bind fun _ _ => .look .dialect ?_
  refine .optional ((Reads.not_accept rfl).mono fun _ _ => trivial) ?_
  refine (Reads.expectAnyName _ _).bind fun t ht => (Reads.expect rfl).bind fun _ _ => ?_
  refine (hstart.isItem _ levels _ (.keyword rfl)).bind fun start' same₁ => ?_
  refine (Reads.expect rfl).bind fun _ _ => ?_
  refine (hstop.isItem _ levels _ ?_).bind fun stop' same₂ => ?_
  · cases step with
    | none => exact .keyword rfl
    | some x => exact .keyword rfl
  refine (step_reads hstep levels).choose fun step' same₃ => ?_
  refine (Reads.expect rfl).bind fun _ _ => ?_
  refine (statementList_reads hb (by rfl) levels).bind fun body' same₄ => ?_
  refine (endConstruct_reads .END_FOR _).bind fun _ _ => (Reads.node _ _).mono ?_
  rintro _ ⟨s, rfl⟩
  have name : t.nameText = control := by
    unfold Token.nameText
    rw [show t.lexeme = .name from congrArg Word.lexeme ht]
    exact congrArg Word.text ht
  rw [bare, bare, name, same₁, same₂, same₃, same₄]

theorem readsBack_ifThen {s : Span} {first : IfBranch} {elsifs : List IfBranch}
    {otherwise : Option (List Stmt)} (hf : first.ReadsBack d declared)
    (he : ∀ b ∈ elsifs, b.ReadsBack d declared)
    (ho : ∀ ss ∈ otherwise, ∀ s ∈ ss, s.ReadsBack d declared) :
    (ifThen s first elsifs otherwise).ReadsBack d declared := by
  cases otherwise with
  | none =>
    refine .of_keyword (k := .IF) (by rw [words]) rfl fun levels rest => .look .lexeme ?_
    rw [List.append_assoc, List.append_assoc]
    -- The body ends before whatever comes next: a further condition, `ELSE` or the end.
    have next : endsStatements (ahead (IfBranch.wordsAll d elsifs ++ (closingWords .END_IF ++ rest)) 0) =
        true := by
      cases elsifs <;> rfl
    refine Reads.advance.bind fun t _ => (hf levels _ t next).bind fun first' same => ?_
    refine Reads.passes.bind fun n _ => ?_
    refine (elsifs_reads he rfl rfl levels n 0).bind fun elsifs' same' => ?_
    refine .look (not_elseBody rfl levels) ?_
    refine (endConstruct_reads .END_IF _).bind fun _ _ => (Reads.node _ _).mono ?_
    rintro _ ⟨s, rfl⟩
    rw [bare, bare, same, same']
  | some ss =>
    refine .of_keyword (k := .IF) (by rw [words]) rfl fun levels rest => .look .lexeme ?_
    rw [List.append_assoc, List.append_assoc, List.cons_append, List.append_assoc]
    have next : endsStatements (ahead (IfBranch.wordsAll d elsifs ++
        .keyword .ELSE :: (Stmt.wordsAll d ss ++ (closingWords .END_IF ++ rest))) 0) = true := by
      cases elsifs <;> rfl
    refine Reads.advance.bind fun t _ => (hf levels _ t next).bind fun first' same => ?_
    refine Reads.passes.bind fun n _ => ?_
    refine (elsifs_reads he rfl rfl levels n 0).bind fun elsifs' same' => ?_
    refine (elseBody_reads (ho ss rfl) rfl levels).bind ?_
    rintro _ ⟨ss', rfl, same''⟩
    refine (endConstruct_reads .END_IF _).bind fun _ _ => (Reads.node _ _).mono ?_
    rintro _ ⟨s, rfl⟩
    rw [bare, bare, same, same', same'']

theorem readsBack_caseOf {s : Span} {selector : Expr} {branches : List CaseBranch}
    {otherwise : Option (List Stmt)} (hs : selector.ReadsBack d)
    (hb : ∀ b ∈ branches, b.ReadsBack d declared)
    (ho : ∀ ss ∈ otherwise, ∀ s ∈ ss, s.ReadsBack d declared) :
    (caseOf s selector branches otherwise).ReadsBack d declared := by
  cases otherwise with
  | none =>
    refine .of_keyword (k := .CASE) (by rw [words]) rfl fun levels rest => .look .lexeme ?_
    rw [List.append_assoc, List.cons_append, List.append_assoc]
    refine Reads.advance.bind fun t _ => (hs.isItem _ levels _ (.keyword rfl)).bind fun x same => ?_
    refine (Reads.expect rfl).bind fun _ _ => Reads.passes.bind fun n _ => ?_
    -- The branches are read up to the end, and below up to `ELSE`.
    refine (branches_reads hb (.inr rfl) levels n 0).bind fun branches' same' => ?_
    refine .look (not_elseBody rfl levels) ?_
    refine (endConstruct_reads .END_CASE _).bind fun _ _ => (Reads.node _ _).mono ?_
    rintro _ ⟨s, rfl⟩
    rw [bare, bare, same, same']
  | some ss =>
    refine .of_keyword (k := .CASE) (by rw [words]) rfl fun levels rest => .look .lexeme ?_
    rw [List.append_assoc, List.cons_append, List.append_assoc, List.cons_append, List.append_assoc]
    refine Reads.advance.bind fun t _ => (hs.isItem _ levels _ (.keyword rfl)).bind fun x same => ?_
    refine (Reads.expect rfl).bind fun _ _ => Reads.passes.bind fun n _ => ?_
    refine (branches_reads hb (.inl rfl) levels n 0).bind fun branches' same' => ?_
    refine (elseBody_reads (ho ss rfl) rfl levels).bind ?_
    rintro _ ⟨ss', rfl, same''⟩
    refine (endConstruct_reads .END_CASE _).bind fun _ _ => (Reads.node _ _).mono ?_
    rintro _ ⟨s, rfl⟩
    rw [bare, bare, same, same', same'']

end Stmt

/-! ### Printable trees -/

mutual

/-- A printable statement is read back. -/
theorem Stmt.readsBack : ∀ s : Stmt, s.Printable d declared → s.ReadsBack d declared
  | .assignment _ _ _ value, ⟨ht, _, hv⟩ => Stmt.readsBack_assignment ht (value.readsBack hv)
  | .ifThen _ first elsifs none, ⟨hf, he⟩ =>
    Stmt.readsBack_ifThen (IfBranch.readsBack first hf) (IfBranch.readsBackAll elsifs he) nofun
  | .ifThen _ first elsifs (some ss), ⟨hf, he, hss⟩ =>
    Stmt.readsBack_ifThen (IfBranch.readsBack first hf) (IfBranch.readsBackAll elsifs he)
      fun _ same => Option.mem_some.1 same ▸ Stmt.readsBackAll ss hss
  | .caseOf _ selector branches none, ⟨hs, hb⟩ =>
    Stmt.readsBack_caseOf (selector.readsBack hs) (CaseBranch.readsBackAll branches hb) nofun
  | .caseOf _ selector branches (some ss), ⟨hs, hb, hss⟩ =>
    Stmt.readsBack_caseOf (selector.readsBack hs) (CaseBranch.readsBackAll branches hb)
      fun _ same => Option.mem_some.1 same ▸ Stmt.readsBackAll ss hss
  | .forLoop _ _ start stop _ body, ⟨_, hstart, hstop, hstep, hb⟩ =>
    Stmt.readsBack_forLoop (start.readsBack hstart) (stop.readsBack hstop)
      (fun x hx => x.readsBack (hstep x hx)) (Stmt.readsBackAll body hb)
  | .whileLoop _ condition body, ⟨hc, hb⟩ =>
    Stmt.readsBack_whileLoop (condition.readsBack hc) (Stmt.readsBackAll body hb)
  | .repeatLoop _ body condition, ⟨hb, hc⟩ =>
    Stmt.readsBack_repeatLoop (condition.readsBack hc) (Stmt.readsBackAll body hb)
  | .exitLoop s, _ => Stmt.readsBack_exitLoop s
  | .nextPass s, _ => Stmt.readsBack_nextPass s
  | .leave s none, _ => Stmt.readsBack_leave_none s
  | .leave _ (some x), hx => Stmt.readsBack_leave_some (x.readsBack (hx x rfl)) (x.opens 0 (hx x rfl))
  | .call _ _ _ _, ⟨path, free, visible, hargs⟩ => Stmt.readsBack_call path free visible hargs
  | .invoke _ _ _, ⟨hc, path, known, visible, hargs⟩ =>
    Stmt.readsBack_invoke hc path known visible hargs
  | .empty s, _ => Stmt.readsBack_empty s
  | .goto s _, _ => Stmt.readsBack_goto s
  | .label s _, ⟨hd, _⟩ => Stmt.readsBack_label s hd

/-- A printable branch is read back. -/
theorem IfBranch.readsBack : ∀ b : IfBranch, b.Printable d declared → b.ReadsBack d declared
  | .mk _ condition body, ⟨hc, hb⟩ =>
    IfBranch.readsBack_mk (condition.readsBack hc) (Stmt.readsBackAll body hb)

/-- A printable branch is read back. -/
theorem CaseBranch.readsBack : ∀ b : CaseBranch, b.Printable d declared → b.ReadsBack d declared
  | .mk _ _ body, ⟨labelled, hs, hb, plain⟩ =>
    CaseBranch.readsBack_mk hs labelled (Stmt.readsBackAll body hb) plain

/-- Each statement of a list. -/
theorem Stmt.readsBackAll : ∀ ss : List Stmt, Stmt.PrintableAll d declared ss →
    ∀ s ∈ ss, s.ReadsBack d declared
  | [], _ => nofun
  | s :: ss, ⟨hs, hss⟩ => List.forall_mem_cons.2 ⟨Stmt.readsBack s hs, Stmt.readsBackAll ss hss⟩

/-- Each branch of a list. -/
theorem IfBranch.readsBackAll : ∀ bs : List IfBranch, IfBranch.PrintableAll d declared bs →
    ∀ b ∈ bs, b.ReadsBack d declared
  | [], _ => nofun
  | b :: bs, ⟨hb, hbs⟩ =>
    List.forall_mem_cons.2 ⟨IfBranch.readsBack b hb, IfBranch.readsBackAll bs hbs⟩

/-- Each branch of a list. -/
theorem CaseBranch.readsBackAll : ∀ bs : List CaseBranch, CaseBranch.PrintableAll d declared bs →
    ∀ b ∈ bs, b.ReadsBack d declared
  | [], _ => nofun
  | b :: bs, ⟨hb, hbs⟩ =>
    List.forall_mem_cons.2 ⟨CaseBranch.readsBack b hb, CaseBranch.readsBackAll bs hbs⟩

end

end

end Plc
