/-
Statements read in two texts.

Each statement ends with a token that closes it, so a statement may be the last of a common stretch of
two texts.  A list of statements may fill the stretch, if what comes behind ends the list in both
texts.

* `regionStmt_tracks` — a region has the rest of its line for a title, which is the same in both texts;
* `statement_tracks` — one statement;
* `statements_follow` — a list of statements that may fill the stretch.
-/
import Plc.Proofs.Grammar.StmtCongruence
import Plc.Proofs.Moved.Expr

namespace Plc.Grammar

variable {x : Transplant}

/-- The rules give the same statement, further on on the other side. -/
abbrev MovesStmt (x : Transplant) (s s' : Rule Stmt) : Prop :=
  Tracks x true true (Stmt.moved x.shift) s s'

variable {e e' : Rule Expr} {s s' : Rule Stmt}

/-! ### Lists of statements -/

/-- The rules give the same list, further on on the other side. -/
abbrev MovesList (x : Transplant) (b b' : Rule (List Stmt)) : Prop :=
  Tracks x false false (List.map (Stmt.moved x.shift)) b b'

/-- One more statement of a list. -/
def oneMore (s : Rule Stmt) (size : Nat) : Rule (List Stmt) := do
  match ← recovering resumesStatements true s with
  | some s =>
    checkSize (size + 1) s.span
    return [s]
  | none => return []

theorem oneMore_tracks (hs : MovesStmt x s s') (size size' : Nat) :
    Tracks x true true (List.map (Stmt.moved x.shift)) (oneMore s size) (oneMore s' size') := by
  refine hs.recovering.last fun o => ?_
  cases o with
  | none => exact .pure
  | some a => exact (Idle.checkSize _ _ _ _).bind fun _ => .pure

theorem statementListUntil_tracks {stop stop' : Rule Bool} (hstop : Tracks x false false id stop stop')
    (hs : MovesStmt x s s') :
    MovesList x (statementListUntil stop s) (statementListUntil stop' s') := by
  refine Tracks.passes fun n n' => .many (Tracks.lexeme fun l => ?_)
    (fun size size' => (oneMore_tracks hs size size').level) n n' 0 0
  exact .ite .pure (hstop.bind fun _ => .pure)

theorem statementList_tracks (hs : MovesStmt x s s') :
    MovesList x (statementList s) (statementList s') :=
  statementListUntil_tracks .pure hs

/-! ### Simple statements -/

theorem assignmentOrCall_tracks (he : MovesExpr x e e') :
    MovesStmt x (assignmentOrCall e) (assignmentOrCall e') := by
  refine Tracks.peek fun start => (variableWith_tracks he).bind fun v => ?_
  refine Tracks.sees _ fun b => .ite ?_ ?_
  · rw [Variable.path?_moved]
    split
    · exact .fails (fails_notCallable _ _)
    · refine (callArgs_tracks he).bind fun args => ?_
      -- The statement is an invocation if the first name of the path is declared.
      rw [Variable.root?_moved]
      refine Tracks.isDeclared _ fun known => .ite ?_ ?_
      · refine Tracks.expectSemicolon.last fun _ => .node rfl fun _ => ?_
        simp only [Stmt.moved, Arg.movedAll_eq]
      · refine Tracks.bind (f := Span.moved x.shift) (.node rfl fun _ => rfl) fun call => ?_
        refine Tracks.expectSemicolon.last fun _ => .node rfl fun _ => ?_
        simp only [Stmt.moved, Arg.movedAll_eq]
  · refine Tracks.lexeme fun l => ?_
    split
    · exact .failExpecting
    · refine Tracks.advance.bind fun _ => he.level.bind fun a => ?_
      exact Tracks.expectSemicolon.last fun _ => .node rfl fun _ => by simp only [Stmt.moved]

theorem oneWord_tracks {build : Span → Stmt}
    (h : ∀ s, build (Span.moved x.shift s) = (build s).moved x.shift) :
    MovesStmt x (oneWord build) (oneWord build) :=
  Tracks.advance.bind fun _ => Tracks.expectSemicolon.last fun _ => .node rfl h

theorem leaveStmt_tracks (he : MovesExpr x e e') : MovesStmt x (leaveStmt e) (leaveStmt e') := by
  refine Tracks.advance.bind fun t => Tracks.lexeme fun l => ?_
  have last (o : Option Expr) : Tracks x false true (Stmt.moved x.shift)
      (expectSemicolon >>= fun _ => node t.span fun s => Stmt.leave s o)
      (expectSemicolon >>= fun _ => node (t.moved x.shift).span fun s =>
        Stmt.leave s (o.map (Expr.moved x.shift))) :=
    Tracks.expectSemicolon.last fun _ => .node rfl fun _ => by simp only [Stmt.moved]
  refine .ite (Tracks.bind (f := Option.map (Expr.moved x.shift)) .pure last) ?_
  exact (he.level.map (g := Option.map (Expr.moved x.shift)) fun _ => rfl).bind last

theorem gotoStmt_tracks : MovesStmt x gotoStmt gotoStmt :=
  Tracks.advance.bind fun _ => (Tracks.expectName _).bind fun _ =>
    Tracks.expectSemicolon.last fun _ => .node rfl fun _ => by simp only [Stmt.moved]; rfl

/-! ### Constructs -/

theorem accept_apply (t : Terminal) (s : Setting) (c : Cursor) : accept t s c =
    if (s.ahead c 0).lexeme.is t then (advance >>= fun _ => pure true) s c else .ok false c := by
  show (if (s.ahead c 0).lexeme.is t = true then (advance >>= fun _ => pure true : Rule Bool)
    else pure false) s c = _
  split <;> rfl

/-- Behind the stretch comes no semicolon, so it is seen on both sides or on neither. -/
theorem semicolon_seen {fresh : Bool} {c c' : Cursor} (side : Beside x fresh c c')
    (left : x.tail.length ≤ c.rest.length) :
    (x.other.ahead c' 0).lexeme.is Mark.semicolon = (x.one.ahead c 0).lexeme.is Mark.semicolon ∧
      ((x.one.ahead c 0).lexeme.is Mark.semicolon = true → x.tail.length < c.rest.length) := by
  obtain more | none := Nat.lt_or_eq_of_le left
  · rw [side.ahead_lexeme (n := 0) more nofun]
    exact ⟨rfl, fun _ => more⟩
  · obtain ⟨⟨ts, before, after, -⟩, -⟩ := side
    obtain rfl : ts = [] := by
      rw [before, List.length_append] at none
      exact List.eq_nil_of_length_eq_zero (by omega)
    unfold Setting.ahead
    rw [before, after, List.nil_append, List.map_nil, List.nil_append, x.bare.1, x.bare.2]
    exact ⟨rfl, fun semicolon => by cases semicolon⟩

/-- A semicolon is passed over, if one comes. -/
theorem accept_semicolon {c d : Cursor} {b : Bool}
    (run : accept Mark.semicolon x.one c = .ok b d) :
    (x.one.ahead c 0).lexeme.is Mark.semicolon = b ∧ (if b then
      ∃ t rest, c.rest = t :: rest ∧ closesStatement t.lexeme = true ∧ d = Triple.past c t rest
      else d = c) := by
  rw [accept_apply] at run
  cases semicolon : (x.one.ahead c 0).lexeme.is Mark.semicolon with
  | false =>
    rw [semicolon] at run
    cases run
    exact ⟨rfl, rfl⟩
  | true =>
    have closing : closesStatement (x.one.ahead c 0).lexeme = true := by
      rw [Terminal.is_lexeme semicolon]
      rfl
    rw [semicolon, if_pos rfl, bind_apply] at run
    cases hc : c.rest with
    | nil =>
      rw [Setting.ahead, hc, List.getD_nil, x.finish_open] at closing
      cases closing
    | cons t rest =>
      rw [Setting.ahead, hc, List.getD_cons_zero] at closing
      rw [advance_cons hc] at run
      cases run
      exact ⟨rfl, t, rest, rfl, closing, rfl⟩

/-- The last word of a construct, and a semicolon perhaps. -/
theorem closer_tracks {fresh : Bool} {c c' : Cursor}
    (closing : closesStatement (x.one.ahead c 0).lexeme = true) :
    TracksAt x fresh true (fun _ => ()) c c'
      (advance >>= fun _ => accept Mark.semicolon >>= fun _ => pure ())
      (advance >>= fun _ => accept Mark.semicolon >>= fun _ => pure ()) := by
  cases hc : c.rest with
  | nil =>
    rw [Setting.ahead, hc, List.getD_nil, x.finish_open] at closing
    cases closing
  | cons t rest =>
    rw [Setting.ahead, hc, List.getD_cons_zero] at closing
    -- What is taken ends with the last word or with the semicolon, and both close a statement.
    refine ⟨fun a d run => ?_, fun a d side run left => ?_⟩
    · rw [bind_apply, advance_cons hc] at run
      obtain ⟨b, m, run, last⟩ := bind_eq_ok_iff.1 run
      cases last
      obtain ⟨-, after⟩ := accept_semicolon run
      cases b with
      | false =>
        obtain rfl := after
        exact ⟨[t], hc, fun _ => ⟨t, rfl, closing⟩⟩
      | true =>
        obtain ⟨u, us, hrest, closing', rfl⟩ := after
        exact ⟨[t, u], by rw [hc, show rest = u :: us from hrest]; rfl, fun _ => ⟨u, rfl, closing'⟩⟩
    · rw [bind_apply, advance_cons hc] at run
      obtain ⟨b, m, run, last⟩ := bind_eq_ok_iff.1 run
      cases last
      obtain ⟨seen, after⟩ := accept_semicolon run
      -- The token behind the word is of the part that is followed, or the one right after it, so
      -- that it is seen the same in both texts.
      have within : x.tail.length ≤ rest.length := by
        cases b with
        | false =>
          obtain rfl := after
          exact left
        | true =>
          obtain ⟨u, us, hrest, -, rfl⟩ := after
          rw [show rest = u :: us from hrest]
          exact Nat.le_succ_of_le left
      obtain ⟨u, us, rest', before, after', -, side⟩ :=
        side.past (by rw [hc]; exact Nat.lt_succ_of_le within)
      rw [hc] at before
      obtain ⟨rfl, rfl⟩ := List.cons.inj before
      obtain ⟨same, more⟩ := semicolon_seen side within
      rw [bind_apply, advance_cons after']
      dsimp only
      rw [bind_apply, accept_apply, same, seen]
      cases b with
      | false =>
        obtain rfl := after
        exact .ok ⟨rfl, side⟩
      | true =>
        obtain ⟨u, us, hrest, -, rfl⟩ := after
        -- the semicolon is taken in the other text too
        obtain ⟨v, vs, rest'', before, after'', -, side⟩ := side.past (more seen)
        rw [hrest] at before
        obtain ⟨rfl, rfl⟩ := List.cons.inj before
        rw [if_pos rfl, bind_apply, advance_cons after'']
        exact .ok ⟨rfl, side⟩

theorem endConstruct_tracks {fresh : Bool} {close : Keyword} (known : close ∈ endWords)
    (opener opener' : Span) : Tracks x fresh true (fun _ => ()) (endConstruct close opener)
      (endConstruct close opener') := by
  refine fun c c' => .sees _ (.ite (fun word => closer_tracks ?_) fun _ => ?_)
  · rw [Terminal.is_lexeme word]
    have among : Lexeme.isAmong (.keyword close) endWords = true := List.contains_iff_mem.2 known
    exact (congrArg (_ || ·) among).trans (Bool.or_true _)
  · exact Tracks.atEnd (fun _ => .ite .fail .failExpecting) c c'

theorem ifBranch_tracks (he : MovesExpr x e e') (hs : MovesStmt x s s') (t : Token) :
    Tracks x false false (IfBranch.moved x.shift) (ifBranch e s t)
      (ifBranch e' s' (t.moved x.shift)) := by
  refine he.level.bind fun condition => (Tracks.expect _).bind fun _ => ?_
  refine (statementList_tracks hs).bind fun body => .node rfl fun _ => ?_
  simp only [IfBranch.moved, Stmt.movedAll_eq]

theorem elseBody_tracks (hs : MovesStmt x s s') :
    Tracks x false false (Option.map (List.map (Stmt.moved x.shift))) (elseBody s) (elseBody s') :=
  (Tracks.accept _).bind fun _ => .ite ((statementList_tracks hs).map fun _ => rfl) .pure

theorem ifStmt_tracks (he : MovesExpr x e e') (hs : MovesStmt x s s') :
    MovesStmt x (ifStmt e s) (ifStmt e' s') := by
  refine Tracks.advance.bind fun t => (ifBranch_tracks he hs t).bind fun first => ?_
  -- The bounds on the passes differ, so all that is read in the loop is followed for any two of
  -- them.
  refine Tracks.passes fun n n' => ?_
  refine (Tracks.many (f := IfBranch.moved x.shift) (.seen _)
    (fun size size' => ?_) n n' 0 0).bind fun elsifs => ?_
  · refine Tracks.advance.bind fun opener => (ifBranch_tracks he hs opener).bind fun branch => ?_
    exact (Idle.checkSize _ _ _ _).tracks.bind fun _ => .pure
  refine (elseBody_tracks hs).bind fun otherwise => ?_
  refine (endConstruct_tracks (by decide) _ _).last fun _ => .node rfl fun _ => ?_
  rw [Stmt.moved_ifThen]

theorem caseSelector_tracks (he : MovesExpr x e e') :
    Tracks x true false (CaseSelector.moved x.shift) (caseSelector e) (caseSelector e') := by
  refine Tracks.peek fun start => Tracks.bind he fun low => (Tracks.accept _).bind fun b => .ite ?_ ?_
  · exact he.level.bind fun high => .node rfl fun _ => by simp only [CaseSelector.moved]
  · exact .node rfl fun _ => by simp only [CaseSelector.moved]

/-! ### Labels -/

/-- Members of a label do not reach past a token that closes a statement. -/
theorem afterMembers_append {ls : List Lexeme} (closing : ∃ l ∈ ls.getLast?, closesStatement l = true)
    (us : List Lexeme) : afterMembers (ls ++ us) = afterMembers ls ++ us ∧ afterMembers ls ≠ [] := by
  -- Induction along the members, each of which takes two lexemes.
  fun_induction afterMembers ls with
  -- The word of a member is a name, and no name closes a statement; so more comes behind it.
  | case1 dot word ls member ih =>
    obtain ⟨l, hl, closes⟩ := closing
    have name_open := isName_open (Bool.and_eq_true_iff.1 member).2
    have more : ls ≠ [] := by
      rintro rfl
      cases hl
      rw [show closesStatement word = true from closes] at name_open
      cases name_open
    obtain ⟨e, es, rfl⟩ := List.exists_cons_of_ne_nil more
    rw [List.cons_append, List.cons_append, afterMembers, if_pos member]
    exact ih ⟨l, hl, closes⟩
  | case2 dot word ls other =>
    rw [List.cons_append, List.cons_append, afterMembers, if_neg other]
    exact ⟨rfl, List.cons_ne_nil _ _⟩
  -- Fewer than two lexemes are left; the last one closes a statement, and so is no dot.
  | case3 ls short =>
    obtain ⟨l, hl, closes⟩ := closing
    obtain _ | ⟨e, _ | ⟨word, ls⟩⟩ := ls
    · cases hl
    · cases hl
      refine ⟨?_, List.cons_ne_nil _ _⟩
      cases us with
      | nil => rfl
      | cons u us =>
        have other : (e.is Mark.dot && u.isName) = false := by
          cases dot : e.is Mark.dot with
          | false => rfl
          | true =>
            have dot_open := is_open dot rfl
            rw [show closesStatement e = true from closes] at dot_open
            cases dot_open
        rw [List.singleton_append, afterMembers, other]
        rfl
    · exact (short e word ls rfl).elim

/-- What stands behind a token that closes a statement does not make a label. -/
theorem beginsCaseLabel_append (d : Dialect) {ls : List Lexeme}
    (closing : ∃ l ∈ ls.getLast?, closesStatement l = true) (us : List Lexeme) :
    beginsCaseLabel d (ls ++ us) = beginsCaseLabel d ls := by
  obtain ⟨l, hl, closes⟩ := closing
  -- One lexeme is looked at, or two and the members behind them.
  obtain _ | ⟨e, _ | ⟨f, ls⟩⟩ := ls
  · cases hl
  · cases hl
    cases e with
    | mark m =>
      cases m with
      | minus => cases closes
      | _ => rfl
    | name => cases closes
    | _ => rfl
  · have last : ∃ l ∈ (f :: ls).getLast?, closesStatement l = true := ⟨l, hl, closes⟩
    obtain ⟨same, some_lexeme⟩ := afterMembers_append last us
    rw [List.cons_append] at same
    have head : (afterMembers (f :: (ls ++ us))).headD .finish =
        (afterMembers (f :: ls)).headD .finish := by
      obtain ⟨a, as, ha⟩ := List.exists_cons_of_ne_nil some_lexeme
      rw [same, ha, List.cons_append, List.headD_cons, List.headD_cons]
    cases e with
    | name =>
      show (d.namedCaseLabels && (_ || followsLabel ((afterMembers (f :: (ls ++ us))).headD .finish))) = _
      rw [head]
      rfl
    | mark m => cases m <;> rfl
    | _ => rfl

/-- A label of a `CASE` branch comes next. -/
def labelAhead : Rule Bool := do
  return beginsCaseLabel (← dialect) ((← tokensLeft).map Token.lexeme)

theorem labelAhead_side {fresh : Bool} {c c' : Cursor} (side : Beside x fresh c c')
    (more : x.tail.length < c.rest.length) :
    beginsCaseLabel x.other.dialect (c'.rest.map Token.lexeme) =
      beginsCaseLabel x.one.dialect (c.rest.map Token.lexeme) := by
  obtain ⟨t, ts, before, after, -, closing⟩ := side.next more
  have last : ∃ l ∈ ((t :: ts).map Token.lexeme).getLast?, closesStatement l = true := by
    rw [List.getLast?_map, List.getLast?_eq_some_getLast (List.cons_ne_nil t ts)]
    exact ⟨_, rfl, closing _ (List.getLast?_eq_some_getLast _)⟩
  have same : ((t :: ts).map (Token.moved x.shift)).map Token.lexeme =
      (t :: ts).map Token.lexeme := by
    rw [List.map_map]
    rfl
  rw [before, after, ← List.map_cons, List.map_append, List.map_append, same,
    beginsCaseLabel_append _ last, beginsCaseLabel_append _ last, x.dialect]

theorem labelAhead_tracks : Tracks x false false id labelAhead labelAhead :=
  have seen (s : Setting) (c : Cursor) : labelAhead s c =
      .ok (beginsCaseLabel s.dialect (c.rest.map Token.lexeme)) c := rfl
  .still seen seen fun _ _ => labelAhead_side

theorem caseBranch_tracks (he : MovesExpr x e e') (hs : MovesStmt x s s') :
    Tracks x true false (CaseBranch.moved x.shift) (caseBranch e s) (caseBranch e' s') := by
  refine Tracks.peek fun start => (Tracks.commaList (caseSelector_tracks he)).bind fun selectors => ?_
  refine (Tracks.expect _).bind fun _ => ?_
  refine (statementListUntil_tracks labelAhead_tracks hs).bind fun body => .node rfl fun _ => ?_
  simp only [CaseBranch.moved, Stmt.movedAll_eq]

theorem caseStmt_tracks (he : MovesExpr x e e') (hs : MovesStmt x s s') :
    MovesStmt x (caseStmt e s) (caseStmt e' s') := by
  refine Tracks.advance.bind fun t => he.level.bind fun selector => ?_
  refine (Tracks.expect _).bind fun _ => Tracks.passes fun n n' => ?_
  refine (Tracks.many (f := CaseBranch.moved x.shift) (Tracks.lexeme fun _ => .pure)
    (fun size size' => ?_) n n' 0 0).bind fun branches => ?_
  · refine (caseBranch_tracks he hs).level.bind fun branch => ?_
    exact (Idle.checkSize _ _ _ _).tracks.bind fun _ => .pure
  refine (elseBody_tracks hs).bind fun otherwise => ?_
  refine (endConstruct_tracks (by decide) _ _).last fun _ => .node rfl fun _ => ?_
  rw [Stmt.moved_caseOf]

/-! ### Loops -/

theorem forStmt_tracks (he : MovesExpr x e e') (hs : MovesStmt x s s') :
    MovesStmt x (forStmt e s) (forStmt e' s') := by
  refine Tracks.advance.bind fun t => Tracks.dialect fun d => ?_
  -- Where a dialect has a mark for local names, one may stand in front of the control variable.
  have unmarked {k k' : Rule Stmt} (hk : Tracks x false true (Stmt.moved x.shift) k k') :
      Tracks x false true (Stmt.moved x.shift)
        (if d.localMark = true then accept Mark.hash >>= fun _ => k else k)
        (if d.localMark = true then accept Mark.hash >>= fun _ => k' else k') :=
    .ite ((Tracks.accept _).bind fun _ => hk) hk
  refine unmarked ?_
  refine (Tracks.expectAnyName _).bind fun control => (Tracks.expect _).bind fun _ => ?_
  refine he.level.bind fun start => (Tracks.expect _).bind fun _ => ?_
  refine he.level.bind fun stop => (Tracks.accept _).bind fun b => ?_
  refine Tracks.optional he.level fun step => (Tracks.expect _).bind fun _ => ?_
  refine (statementList_tracks hs).bind fun body => ?_
  refine (endConstruct_tracks (by decide) _ _).last fun _ => .node rfl fun _ => ?_
  simp only [Stmt.moved, Stmt.movedAll_eq]
  rfl

theorem whileStmt_tracks (he : MovesExpr x e e') (hs : MovesStmt x s s') :
    MovesStmt x (whileStmt e s) (whileStmt e' s') := by
  refine Tracks.advance.bind fun t => he.level.bind fun condition => (Tracks.expect _).bind fun _ => ?_
  refine (statementList_tracks hs).bind fun body => ?_
  refine (endConstruct_tracks (by decide) _ _).last fun _ => .node rfl fun _ => ?_
  simp only [Stmt.moved, Stmt.movedAll_eq]

theorem repeatStmt_tracks (he : MovesExpr x e e') (hs : MovesStmt x s s') :
    MovesStmt x (repeatStmt e s) (repeatStmt e' s') := by
  refine Tracks.advance.bind fun t => (statementList_tracks hs).bind fun body => ?_
  refine (Tracks.expect _).bind fun _ => he.level.bind fun condition => ?_
  refine (Tracks.accept _).bind fun _ => ?_
  refine (endConstruct_tracks (by decide) _ _).last fun _ => .node rfl fun _ => ?_
  simp only [Stmt.moved, Stmt.movedAll_eq]

/-! ### Regions -/

theorem skipBefore_tracks (stop : Nat) :
    Tracks x false false (fun _ => ()) (skipBefore stop) (skipBefore (stop + x.shift)) := by
  refine Tracks.passes fun n n' => ?_
  have more : Tracks x false false id
      (do return !(← atEnd) && (← peek).span.start < stop)
      (do return !(← atEnd) && (← peek).span.start < stop + x.shift) := by
    refine Tracks.atEnd fun b => Tracks.peek fun t => ?_
    have same : decide (t.span.start + x.shift < stop + x.shift) = decide (t.span.start < stop) := by
      simp
    show Tracks x false false id (pure (!b && decide (t.span.start < stop)))
      (pure (!b && decide (t.span.start + x.shift < stop + x.shift)))
    rw [same]
    exact .pure
  refine (Tracks.many (f := id) more (fun _ _ => ?_) n n' 0 0).bind fun _ => .pure
  exact Tracks.advance.bind fun _ => .pure

/-- The title that stands behind a place, and the end of its line. -/
def lineBehind (s : Setting) (stop : Nat) : List Char × Nat :=
  (Text.trim (Text.slice s.source stop (Text.lineStop s.source stop)), Text.lineStop s.source stop)

/-- The title and the end of its line are those of the same line further on. -/
theorem lineBehind_moved {t : Token} (holds : x.Holds t) :
    lineBehind x.other (t.moved x.shift).span.stop =
      ((lineBehind x.one t.span.stop).1, (lineBehind x.one t.span.stop).2 + x.shift) := by
  have above : x.low ≤ t.span.stop := Nat.le_trans holds.1 t.span.ordered
  obtain ⟨bound, line⟩ := x.line t.span.stop above holds.2
  have stop : (t.moved x.shift).span.stop = t.span.stop + x.shift := rfl
  rw [lineBehind, lineBehind, stop, line, x.slice _ _ above bound]

theorem regionStmt_tracks (hs : MovesStmt x s s') :
    MovesStmt x (regionStmt s) (regionStmt s') := by
  intro c c'
  have behind (t : Token) (title : List Char) (stop : Nat) : Tracks x false true (Stmt.moved x.shift)
      (skipBefore stop >>= fun _ => statementList s >>= fun body =>
        endConstruct .END_REGION t.span >>= fun _ =>
          node t.span fun s => Stmt.region s (String.ofList title) body)
      (skipBefore (stop + x.shift) >>= fun _ => statementList s' >>= fun body =>
        endConstruct .END_REGION (t.moved x.shift).span >>= fun _ =>
          node (t.moved x.shift).span fun s => Stmt.region s (String.ofList title) body) := by
    refine (skipBefore_tracks stop).bind fun _ => (statementList_tracks hs).bind fun body => ?_
    refine (endConstruct_tracks (by decide) _ _).last fun _ => .node rfl fun _ => ?_
    simp only [Stmt.moved, Stmt.movedAll_eq]
  refine .advanceHeld (fun a d run => ?_) fun holds => ?_
  · obtain ⟨t, m, first, later⟩ := bind_eq_ok_iff.1 run
    have advances : Tracks x true false (Token.moved x.shift) advance advance := .advance
    exact ((advances c c').passes t m first).trans
      ((behind t _ _ m c').passes a d later)
  · generalize x.one.ahead c 0 = t at holds
    refine Tracks.look (h := fun p => (p.1, p.2 + x.shift)) (v := fun s _ => lineBehind s t.span.stop)
      (fun _ _ => rfl) (fun _ _ => rfl) (fun _ _ _ _ => ?_) fun p => behind t p.1 p.2
    exact lineBehind_moved holds

/-! ### One statement -/

/-- Two tokens are passed over, the second of which closes a statement. -/
theorem advance_twice {fresh : Bool} {α β : Type} {f : α → β} {k : Rule α} {k' : Rule β}
    {c c' : Cursor} (closing : closesStatement (x.one.ahead c 1).lexeme = true) (hk : Idle x f k k') :
    TracksAt x fresh true f c c' (advance >>= fun _ => advance >>= fun _ => k)
      (advance >>= fun _ => advance >>= fun _ => k') := by
  -- The end of the text closes no statement, so there are two tokens.
  obtain ⟨t, u, rest, hc⟩ : ∃ t u rest, c.rest = t :: u :: rest := by
    unfold Setting.ahead at closing
    obtain hc | ⟨t, hc⟩ | ⟨t, u, rest, hc⟩ :
        c.rest = [] ∨ (∃ t, c.rest = [t]) ∨ ∃ t u rest, c.rest = t :: u :: rest := by
      obtain _ | ⟨t, _ | ⟨u, rest⟩⟩ := c.rest
      · exact .inl rfl
      · exact .inr (.inl ⟨t, rfl⟩)
      · exact .inr (.inr ⟨t, u, rest, rfl⟩)
    · rw [hc] at closing
      exact absurd closing (Bool.eq_false_iff.1 x.finish_open)
    · rw [hc] at closing
      exact absurd closing (Bool.eq_false_iff.1 x.finish_open)
    · exact ⟨t, u, rest, hc⟩
  have closes : closesStatement u.lexeme = true := by
    rw [Setting.ahead, hc] at closing
    exact closing
  have two {d : Cursor} {a : α} (run : (advance >>= fun _ => advance >>= fun _ => k) x.one c = .ok a d) :
      k x.one (Triple.past (Triple.past c t (u :: rest)) u rest) = .ok a d := by
    rw [bind_apply, advance_cons hc] at run
    dsimp only at run
    rwa [bind_apply, advance_cons rfl] at run
  refine ⟨fun a d run => ?_, fun a d side run left => ?_⟩
  · have same := (hk _ c' a d (two run)).1
    exact ⟨[t, u], by rw [hc, same]; rfl, fun _ => ⟨u, rfl, closes⟩⟩
  · obtain ⟨same, onward⟩ := hk _ (Triple.past (Triple.past c' (t.moved x.shift) c'.rest.tail)
      (u.moved x.shift) c'.rest.tail.tail) a d (two run)
    rw [same] at left
    obtain ⟨v, vs, rest', before, after, -, side⟩ := side.past (by
      rw [hc]
      exact Nat.lt_succ_of_le (Nat.le_succ_of_le left))
    rw [hc] at before
    obtain ⟨rfl, rfl⟩ := List.cons.inj before
    obtain ⟨v, vs, rest'', before, after', -, side⟩ := side.past (Nat.lt_succ_of_le left)
    obtain ⟨rfl, rfl⟩ := List.cons.inj before
    obtain rfl : rest' = u.moved x.shift :: rest'' := after'
    rw [after] at onward
    rw [bind_apply, advance_cons after]
    dsimp only
    rw [bind_apply, advance_cons rfl]
    exact onward side

theorem plainStmt_tracks (he : MovesExpr x e e') : MovesStmt x (plainStmt e) (plainStmt e') := by
  intro c c'
  refine .peek (.ite (fun semicolon => ?_) fun _ => .dialect fun d => .lexemeAt 1 fun next clear => ?_)
  · refine .last (.advance fun _ => ?_) fun _ => .node rfl fun _ => rfl
    rw [Terminal.is_lexeme semicolon]
    rfl
  · generalize hstart : x.one.ahead c 0 = t at clear ⊢
    -- What comes behind a name is the same on both sides, since a name closes no statement.
    have same : (d.blocks && t.lexeme.isName && next.is Mark.colon) =
        (d.blocks && t.lexeme.isName && (x.one.ahead c 1).lexeme.is Mark.colon) := by
      cases name : t.lexeme.isName with
      | false => rw [Bool.and_false, Bool.false_and, Bool.false_and]
      | true => rw [clear (clear_one (hstart ▸ isName_open name))]
    show TracksAt x true true (Stmt.moved x.shift) c c' (if _ then _ else _)
      (if (d.blocks && t.lexeme.isName && next.is Mark.colon) = true then _ else _)
    rw [same]
    refine .ite (fun label => ?_) fun _ => .ite (fun _ => ?_) fun _ => Tracks.failInvalid c c'
    · have colon := Terminal.is_lexeme (Bool.and_eq_true_iff.1 label).2
      refine advance_twice ?_ (.node rfl fun _ => rfl)
      rw [colon]
      rfl
    · exact assignmentOrCall_tracks he c c'

theorem statementBody_tracks (he : MovesExpr x e e') (hs : MovesStmt x s s') :
    MovesStmt x (statementBody e s) (statementBody e' s') := by
  refine Tracks.lexeme fun l => ?_
  split
  · exact ifStmt_tracks he hs
  · exact caseStmt_tracks he hs
  · exact forStmt_tracks he hs
  · exact whileStmt_tracks he hs
  · exact repeatStmt_tracks he hs
  · exact oneWord_tracks fun _ => rfl
  · exact oneWord_tracks fun _ => rfl
  · exact leaveStmt_tracks he
  · exact gotoStmt_tracks
  · exact regionStmt_tracks hs
  · exact plainStmt_tracks he

/-- The other reading may have fewer constructs left to open; then a limit ends it. -/
theorem statement_tracks (levels levels' : Nat) :
    MovesStmt x (statement levels) (statement levels') := by
  induction levels generalizing levels' with
  | zero => exact .tooDeep
  | succ levels ih =>
    have inner (levels' : Nat) : MovesStmt x (statement (levels + 1)) (statement (levels' + 1)) :=
      .nested (statementBody_tracks (expression_tracks levels levels') (ih levels'))
    cases levels' with
    | zero => exact (inner 0).limited (Tracks.tooDeep_limited x.other)
    | succ levels' => exact inner levels'

/-! ### A list that fills the stretch -/

/-- No word that ends a list of statements comes next, and the list is not told to stop either. -/
def moreStatements (stop : Rule Bool) : Rule Bool := do
  if endsStatements (← lexeme) then return false else return !(← stop)

section Follow

variable {stop : Rule Bool} {value : Setting → Cursor → Bool}

theorem moreStatements_eq (hstop : ∀ s c, stop s c = .ok (value s c) c) (s : Setting) (c : Cursor) :
    moreStatements stop s c =
      .ok (!endsStatements (s.ahead c 0).lexeme && !value s c) c := by
  show (if endsStatements (s.ahead c 0).lexeme = true then (pure false : Rule Bool)
    else stop >>= fun b => pure (!b)) s c = _
  cases endsStatements (s.ahead c 0).lexeme with
  | true => rfl
  | false =>
    rw [if_neg Bool.false_ne_true, bind_apply, hstop]
    rfl

/-- A list of statements passes over no token, or the last one closes a statement. -/
theorem statements_passes (hstop : ∀ s c, stop s c = .ok (value s c) c) {levels : Nat}
    {c d : Cursor} {ss : List Stmt}
    (run : statementListUntil stop (statement levels) x.one c = .ok ss d) :
    ss = [] ∧ d = c ∨ ReadsOver true c d :=
  Tracks.many_passes (moreStatements_eq hstop) (fun size c as d run =>
    (oneMore_tracks (statement_tracks (x := x) levels levels) size size c c).passes as d run) run

/-- What is left of a list of statements may fill the stretch, if what comes behind ends it in both
texts. -/
theorem laterStatements_follow (hstop : ∀ s c, stop s c = .ok (value s c) c)
    (inside : ∀ fresh c c', Beside x fresh c c' → x.tail.length < c.rest.length →
      value x.other c' = value x.one c)
    (behind : ∀ c, c.rest = x.tail →
      endsStatements (x.one.ahead c 0).lexeme = true ∨ value x.one c = true)
    (behind' : ∀ c, c.rest = x.tail' →
      endsStatements (x.other.ahead c 0).lexeme = true ∨ value x.other c = true)
    {levels levels' n size : Nat} {fresh : Bool} {c c' d : Cursor} {ss : List Stmt}
    (side : Beside x fresh c c')
    (run : many (moreStatements stop) (oneMore (statement levels)) n size x.one c = .ok ss d)
    (left : x.tail.length ≤ d.rest.length) :
    UnlessLimited (fun ss' d' => ss' = ss.map (Stmt.moved x.shift) ∧ Beside x fresh d d')
      (statementListUntil stop (statement levels') x.other c') := by
  -- A list ends at a word that ends statements or where its own question says so. Behind the part
  -- that moved both texts have one of the two.
  have ended {s : Setting} {c : Cursor}
      (h : endsStatements (s.ahead c 0).lexeme = true ∨ value s c = true) :
      (!endsStatements (s.ahead c 0).lexeme && !value s c) = false := by
    obtain word | told := h
    · rw [word]
      rfl
    · rw [told]
      exact Bool.and_false _
  refine Tracks.many_follows (moreStatements_eq hstop) (fun fresh c c' side more => ?_)
    (fun c rest => ended (behind c rest)) (fun c rest => ended (behind' c rest))
    (fun size size' => oneMore_tracks (statement_tracks levels levels') size size') side run left
  rw [inside fresh c c' side more, side.ahead_lexeme (n := 0) more nofun]

/-- A list of statements may fill the stretch, if what comes behind ends it in both texts. -/
theorem statements_follow (hstop : ∀ s c, stop s c = .ok (value s c) c)
    (inside : ∀ fresh c c', Beside x fresh c c' → x.tail.length < c.rest.length →
      value x.other c' = value x.one c)
    (behind : ∀ c, c.rest = x.tail →
      endsStatements (x.one.ahead c 0).lexeme = true ∨ value x.one c = true)
    (behind' : ∀ c, c.rest = x.tail' →
      endsStatements (x.other.ahead c 0).lexeme = true ∨ value x.other c = true)
    {levels levels' : Nat} {fresh : Bool} {c c' d : Cursor} {ss : List Stmt} (side : Beside x fresh c c')
    (run : statementListUntil stop (statement levels) x.one c = .ok ss d)
    (left : x.tail.length ≤ d.rest.length) :
    UnlessLimited (fun ss' d' => ss' = ss.map (Stmt.moved x.shift) ∧ Beside x fresh d d')
      (statementListUntil stop (statement levels') x.other c') :=
  laterStatements_follow hstop inside behind behind' side run left

end Follow

end Plc.Grammar
