/-
Branches of `CASE`.

Two constructs `CASE` with one branch each, in two texts, may be put together to one with both branches,
if the label of the second branch ends the statements of the first.

* `caseBranch_follows` — a branch that fills a common stretch of two texts;
* `OneCase` — what was read of a `CASE` with one branch;
* `caseStmt_follows` — the two branches one after the other.
-/
import Plc.Proofs.Grammar.Names
import Plc.Proofs.Moved.Whole

namespace Plc.Grammar

variable {x : Transplant} {s : Setting} {e : Rule Expr} {rule : Rule Stmt} {c d : Cursor}

/-! ### One branch -/

theorem node_eq_ok {α : Type} {start : Span} {build : Span → α} {a : α}
    (run : node start build s c = .ok a d) :
    (∃ span, span.start = start.start ∧ a = build span) ∧ d.rest = c.rest := by
  obtain ⟨span, m, spanned, run⟩ := bind_eq_ok_iff.1 run
  cases spanned
  obtain ⟨_, m', counted, given⟩ := bind_eq_ok_iff.1 run
  cases given
  obtain ⟨-, rfl⟩ := checkLimit_eq_ok (c := { c with usage := c.usage.addNode }) counted
  exact ⟨⟨⟨start.start, max c.lastStop start.stop, _⟩, rfl, rfl⟩, rfl⟩

theorem labelAhead_apply (s : Setting) (c : Cursor) : labelAhead s c =
    .ok (beginsCaseLabel s.dialect (c.rest.map Token.lexeme)) c :=
  rfl

/-- A branch is its labels, a colon and its statements. -/
theorem caseBranch_eq_ok {b : CaseBranch} (run : caseBranch e rule s c = .ok b d) :
    ∃ selectors labels colon head body last,
      commaList (caseSelector e) CaseSelector.span s c = .ok selectors labels ∧
      expect Mark.colon s labels = .ok colon head ∧
      statementListUntil labelAhead rule s head = .ok body last ∧
      node (s.ahead c 0).span (fun s => CaseBranch.mk s selectors body) s last = .ok b d := by
  replace run : (commaList (caseSelector e) CaseSelector.span >>= fun selectors =>
    expect Mark.colon >>= fun _ => statementListUntil labelAhead rule >>= fun body =>
      node (s.ahead c 0).span fun s => CaseBranch.mk s selectors body) s c = .ok b d := run
  obtain ⟨selectors, labels, readLabels, run⟩ := bind_eq_ok_iff.1 run
  obtain ⟨colon, head, readColon, run⟩ := bind_eq_ok_iff.1 run
  obtain ⟨body, last, readBody, built⟩ := bind_eq_ok_iff.1 run
  exact ⟨_, _, _, _, _, _, readLabels, readColon, readBody, built⟩

/-- A colon closes the labels of a branch. -/
theorem expectColon_tracks : Tracks x false true (Token.moved x.shift) (expect Mark.colon)
    (expect Mark.colon) := by
  refine fun c c' => .sees _ (.ite (fun colon => .advance fun _ => ?_) fun _ => Tracks.failExpecting c c')
  rw [Terminal.is_lexeme colon]
  rfl

/-- The first place of a branch is where it begins. -/
theorem caseBranch_start {b : CaseBranch} (run : caseBranch e rule s c = .ok b d) :
    b.span.start = (s.ahead c 0).span.start := by
  obtain ⟨_, _, _, _, _, _, -, -, -, built⟩ := caseBranch_eq_ok run
  obtain ⟨⟨span, start, rfl⟩, -⟩ := node_eq_ok built
  exact start

/-- The last token of a branch closes a statement. -/
theorem caseBranch_passes {levels : Nat} {b : CaseBranch}
    (run : caseBranch (expression levels) (statement levels) x.one c = .ok b d) : ReadsOver true c d := by
  obtain ⟨selectors, labels, colon, head, body, last, readLabels, readColon, readBody, built⟩ :=
    caseBranch_eq_ok run
  have labelsTrack : Tracks x true false (List.map (CaseSelector.moved x.shift))
      (commaList (caseSelector (expression levels)) CaseSelector.span)
      (commaList (caseSelector (expression levels)) CaseSelector.span) :=
    .commaList (caseSelector_tracks (expression_tracks levels levels))
  have labelsPassed := (labelsTrack c c).passes _ _ readLabels
  have colonPassed := (expectColon_tracks (x := x) labels labels).passes _ _ readColon
  obtain ⟨front, before, closing⟩ : ReadsOver true c last := by
    obtain ⟨-, rfl⟩ | passed := statements_passes (x := x) labelAhead_apply readBody
    · exact labelsPassed.trans colonPassed
    · exact labelsPassed.trans (colonPassed.weaken.trans passed)
  exact ⟨front, (node_eq_ok built).2 ▸ before, closing⟩

/-- A branch may fill the stretch, if what comes behind ends its statements in both texts. -/
theorem caseBranch_follows
    (behind : ∀ c, c.rest = x.tail → endsStatements (x.one.ahead c 0).lexeme = true ∨
      beginsCaseLabel x.one.dialect (c.rest.map Token.lexeme) = true)
    (behind' : ∀ c, c.rest = x.tail' → endsStatements (x.other.ahead c 0).lexeme = true ∨
      beginsCaseLabel x.other.dialect (c.rest.map Token.lexeme) = true)
    {levels levels' : Nat} {b : CaseBranch} {fresh : Bool} {c' : Cursor} (side : Beside x fresh c c')
    (run : caseBranch (expression levels) (statement levels) x.one c = .ok b d)
    (left : x.tail.length ≤ d.rest.length) :
    UnlessLimited (fun b' d' => b' = b.moved x.shift ∧ Beside x false d d')
      (caseBranch (expression levels') (statement levels') x.other c') := by
  obtain ⟨selectors, labels, colon, head, body, last, readLabels, readColon, readBody, built⟩ :=
    caseBranch_eq_ok run
  have labelsTrack : Tracks x true false (List.map (CaseSelector.moved x.shift))
      (commaList (caseSelector (expression levels)) CaseSelector.span)
      (commaList (caseSelector (expression levels')) CaseSelector.span) :=
    .commaList (caseSelector_tracks (expression_tracks levels levels'))
  have buildTracks : Idle x (CaseBranch.moved x.shift)
      (node (x.one.ahead c 0).span fun s => CaseBranch.mk s selectors body)
      (node ((x.one.ahead c 0).moved x.shift).span fun s => CaseBranch.mk s
        (selectors.map (CaseSelector.moved x.shift)) (body.map (Stmt.moved x.shift))) :=
    .node rfl fun _ => by simp only [CaseBranch.moved, Stmt.movedAll_eq]
  -- The colon may be the last token of the stretch, and before it the labels are left.
  have leftLast : x.tail.length ≤ last.rest.length := (node_eq_ok built).2 ▸ left
  have leftHead : x.tail.length ≤ head.rest.length := by
    obtain ⟨-, rfl⟩ | passed := statements_passes (x := x) labelAhead_apply readBody
    · exact leftLast
    · exact Nat.le_trans leftLast (Nat.le_of_succ_le passed.length_le)
  have leftLabels : x.tail.length + 1 ≤ labels.rest.length :=
    Nat.le_trans (Nat.succ_le_succ leftHead)
      ((expectColon_tracks (x := x) labels labels).passes _ _ readColon).length_le
  have start := side.ahead_zero (((labelsTrack c c).passes _ _ readLabels).more leftLabels)
  show UnlessLimited _ ((commaList (caseSelector (expression levels')) CaseSelector.span >>=
    fun selectors => expect Mark.colon >>= fun _ => statementListUntil labelAhead (statement levels') >>=
      fun body => node (x.other.ahead c' 0).span fun s => CaseBranch.mk s selectors body) x.other c')
  rw [start]
  refine ((labelsTrack c c').follows _ _ side.any readLabels leftLabels).bind ?_
  rintro _ m ⟨rfl, side⟩
  refine ((expectColon_tracks labels m).follows _ _ side readColon leftHead).bind ?_
  rintro _ m ⟨rfl, side⟩
  refine (statements_follow labelAhead_apply (fun _ _ _ => labelAhead_side) behind behind' side readBody
    leftLast).bind ?_
  rintro _ m ⟨rfl, side⟩
  exact (buildTracks _ m _ _ built).2 side

/-! ### `CASE` with one branch -/

/-- A branch comes next. -/
def moreBranches : Rule Bool := do
  let l ← lexeme
  return !(l.isFinish || l.isAmong [.ELSE, .END_CASE])

/-- One more branch. -/
def oneBranch (e : Rule Expr) (rule : Rule Stmt) (size : Nat) : Rule (List CaseBranch) := do
  let branch ← caseBranch e rule
  checkSize (size + 1) branch.span
  return [branch]

theorem moreBranches_apply (s : Setting) (c : Cursor) : moreBranches s c =
    .ok (!((s.ahead c 0).lexeme.isFinish || (s.ahead c 0).lexeme.isAmong [.ELSE, .END_CASE])) c :=
  rfl

theorem oneBranch_eq_ok {size : Nat} {bs : List CaseBranch}
    (run : oneBranch e rule size s c = .ok bs d) :
    ∃ b, bs = [b] ∧ caseBranch e rule s c = .ok b d := by
  obtain ⟨b, m, read, run⟩ := bind_eq_ok_iff.1 run
  obtain ⟨_, m', sized, given⟩ := bind_eq_ok_iff.1 run
  obtain ⟨-, rfl⟩ := checkLimit_eq_ok sized
  cases given
  exact ⟨b, rfl, read⟩

theorem caseStmt_apply (e : Rule Expr) (rule : Rule Stmt) : caseStmt e rule =
    (advance >>= fun t => e >>= fun selector => expect Keyword.OF >>= fun _ => passes >>= fun n =>
      many moreBranches (oneBranch e rule) n 0 >>= fun branches => elseBody rule >>= fun otherwise =>
        endConstruct .END_CASE t.span >>= fun _ =>
          node t.span fun s => .caseOf s selector branches otherwise) :=
  rfl

/-- At most one token is passed over. -/
theorem advance_length {t : Token} (run : advance s c = .ok t d) :
    c.rest.length ≤ d.rest.length + 1 := by
  cases hc : c.rest with
  | nil => exact Nat.zero_le _
  | cons u rest =>
    rw [advance_cons hc] at run
    cases run
    exact Nat.le_refl _

/-- The word that closes a construct was there, and a semicolon behind it perhaps. -/
theorem endConstruct_eq_ok {close : Keyword} {opener : Span} {u : Unit}
    (run : endConstruct close opener s c = .ok u d) :
    (s.ahead c 0).lexeme.is close = true ∧ c.rest.length ≤ d.rest.length + 2 := by
  obtain ⟨b, m, seen, run⟩ := bind_eq_ok_iff.1 run
  cases seen
  change (if (s.ahead c 0).lexeme.is close = true then
    (advance >>= fun _ => accept Mark.semicolon >>= fun _ => pure ())
    else (atEnd >>= fun b => if b = true then fail _ else failExpecting _) : Rule Unit) s c = _ at run
  -- The closing word has to be there, since everything else is an error. A semicolon may be taken
  -- with it.
  split at run
  · next closes =>
    refine ⟨closes, ?_⟩
    obtain ⟨t, m, passed, run⟩ := bind_eq_ok_iff.1 run
    obtain ⟨b, m', accepted, given⟩ := bind_eq_ok_iff.1 run
    cases given
    have first := advance_length passed
    rw [accept_apply] at accepted
    split at accepted
    · obtain ⟨v, m'', passed, given⟩ := bind_eq_ok_iff.1 accepted
      cases given
      have second := advance_length passed
      omega
    · cases accepted
      omega
  · obtain ⟨b, m, -, run⟩ := bind_eq_ok_iff.1 run
    split at run <;> cases run

theorem accept_eq_false {t : Terminal} (run : accept t s c = .ok false d) : d = c := by
  rw [accept_apply] at run
  split at run
  · obtain ⟨_, _, -, given⟩ := bind_eq_ok_iff.1 run
    cases given
  · cases run
    rfl

/-- Where no statements come after `ELSE`, nothing is passed over. -/
theorem elseBody_eq_none (run : elseBody rule s c = .ok none d) : d = c := by
  obtain ⟨b, m, accepted, run⟩ := bind_eq_ok_iff.1 run
  cases b with
  | true =>
    replace run : (statementList rule >>= fun ss => pure (some ss)) s m = .ok none d := run
    obtain ⟨_, _, -, given⟩ := bind_eq_ok_iff.1 run
    cases given
  | false =>
    cases run
    exact accept_eq_false accepted

/-- What was read of a `CASE` with one branch and no `ELSE`. -/
structure OneCase (e : Rule Expr) (rule : Rule Stmt) (s : Setting) (c d : Cursor) (selector : Expr)
    (b : CaseBranch) where
  word : Token
  first : Cursor
  header : Cursor
  head : Cursor
  last : Cursor
  closed : Cursor
  opened : advance s c = .ok word first
  read : e s first = .ok selector header
  of : ∃ t, expect Keyword.OF s header = .ok t head
  begins : moreBranches s head = .ok true head
  branch : caseBranch e rule s head = .ok b last
  ends : moreBranches s last = .ok false last
  otherwise : elseBody rule s last = .ok none last
  closes : endConstruct .END_CASE word.span s last = .ok () closed
  done : d.rest = closed.rest

theorem caseStmt_one {span : Span} {selector : Expr} {b : CaseBranch}
    (run : caseStmt e rule s c = .ok (.caseOf span selector [b] none) d) :
    Nonempty (OneCase e rule s c d selector b) := by
  rw [caseStmt_apply] at run
  obtain ⟨t, first, opened, run⟩ := bind_eq_ok_iff.1 run
  obtain ⟨selector', header, read, run⟩ := bind_eq_ok_iff.1 run
  obtain ⟨u, head, of, run⟩ := bind_eq_ok_iff.1 run
  obtain ⟨n, head', given, run⟩ := bind_eq_ok_iff.1 run
  cases given
  obtain ⟨branches, last, branched, run⟩ := bind_eq_ok_iff.1 run
  obtain ⟨otherwise, last', others, run⟩ := bind_eq_ok_iff.1 run
  obtain ⟨_, closed, closes, built⟩ := bind_eq_ok_iff.1 run
  obtain ⟨⟨span', -, same⟩, done⟩ := node_eq_ok built
  cases same
  cases elseBody_eq_none others
  obtain ⟨begins, branch, ends⟩ := many_eq_one moreBranches_apply
    (fun size c bs m run => let ⟨b, same, _⟩ := oneBranch_eq_ok run; ⟨b, same⟩) branched
  obtain ⟨b', same, branch⟩ := oneBranch_eq_ok branch
  cases same
  exact ⟨⟨t, first, header, head, last, closed, opened, read, ⟨u, of⟩, begins ▸ moreBranches_apply s head,
    branch, ends ▸ moreBranches_apply s last, others, closes, done⟩⟩

namespace OneCase

variable {levels : Nat} {selector : Expr} {b : CaseBranch}

/-- The header stands before the branch. -/
theorem readsHeader (one : OneCase (expression levels) (statement levels) s c d selector b)
    (strict : s.recovers = false) (ends : s.finish.lexeme.isFinish = true) :
    ReadsOver false c one.head := by
  let x := Transplant.self s strict ends
  obtain ⟨t, of⟩ := one.of
  have advances : Tracks x true false (Token.moved x.shift) advance advance := .advance
  have expects : Tracks x true false (Token.moved x.shift) (expect Keyword.OF) (expect Keyword.OF) :=
    .expect _
  have first := (advances c c).passes _ _ one.opened
  have header := (expression_tracks (x := x) levels levels one.first one.first).passes _ _ one.read
  have head := (expects one.header one.header).passes _ _ of
  exact first.trans (header.trans head)

/-- The last token of the branch closes a statement. -/
theorem readsOver (one : OneCase (expression levels) (statement levels) s c d selector b)
    (strict : s.recovers = false) (ends : s.finish.lexeme.isFinish = true) :
    ReadsOver true c one.last :=
  (one.readsHeader strict ends).trans (caseBranch_passes (x := .self s strict ends) one.branch)

/-- The branch begins with a token. -/
theorem head_rest (one : OneCase (expression levels) (statement levels) s c d selector b)
    (ends : s.finish.lexeme.isFinish = true) :
    ∃ t ts, one.head.rest = t :: ts ∧ b.span.start = t.span.start := by
  have start := caseBranch_start one.branch
  have begins := one.begins
  rw [moreBranches_apply] at begins
  unfold Setting.ahead at start begins
  cases hrest : one.head.rest with
  | nil =>
    rw [hrest, List.getD_nil, ends] at begins
    cases begins
  | cons t ts =>
    rw [hrest] at start
    exact ⟨t, ts, rfl, start⟩

/-- Where only the end of the construct and a semicolon were to come, the branch came up to them. -/
theorem filled (one : OneCase (expression levels) (statement levels) s c d selector b)
    (strict : s.recovers = false) (ends : s.finish.lexeme.isFinish = true) {front : List Token}
    {word semicolon : Token} (rest : c.rest = front ++ [word, semicolon])
    (other : semicolon.lexeme.is Keyword.END_CASE = false) (done : d.rest = []) :
    one.last.rest = [word, semicolon] ∧ ∀ t ∈ front.getLast?, closesStatement t.lexeme = true := by
  obtain ⟨passed, parts, last⟩ := one.readsOver strict ends
  obtain ⟨closes, few⟩ := endConstruct_eq_ok one.closes
  rw [← one.done, done] at few
  rw [rest] at parts
  obtain ⟨t, ht, closing⟩ := last rfl
  unfold Setting.ahead at closes
  generalize one.last.rest = left at few parts closes
  obtain _ | ⟨v, _ | ⟨w, _ | ⟨_, _⟩⟩⟩ := left
  · rw [List.getD_nil] at closes
    rw [Terminal.is_lexeme closes] at ends
    cases ends
  · -- The last token is the semicolon, which closes no construct.
    have parts : (front ++ [word]) ++ [semicolon] = passed ++ [v] := by
      rw [List.append_assoc]
      exact parts
    obtain ⟨-, same⟩ := List.append_inj' parts rfl
    cases same
    exact absurd closes (Bool.eq_false_iff.1 other)
  · obtain ⟨rfl, same⟩ := List.append_inj' parts rfl
    refine ⟨same.symm, fun u hu => ?_⟩
    cases ht.symm.trans hu
    exact closing
  · exact absurd few (by simp)

/-- The names declared around the construct are declared in each part of it. -/
theorem names (one : OneCase (expression levels) (statement levels) s c d selector b) :
    one.head.declared = c.declared ∧ one.last.declared = c.declared := by
  obtain ⟨t, of⟩ := one.of
  have selectorNames : KeepsNames (expression levels) :=
    KeepsNames.congruence.expression_rel (.refl levels)
  have branchNames : KeepsNames (caseBranch (expression levels) (statement levels)) :=
    keepsNames.caseBranch_rel (e := expression levels) (s := statement levels) selectorNames
      (keepsNames.statement_rel (.refl levels))
  have first := KeepsNames.advance.ok one.opened
  have header := selectorNames.ok one.read
  have head := KeepsNames.ok (KeepsNames.congruence.expect_rel _) of
  have last := branchNames.ok one.branch
  have inner : one.head.declared = c.declared := head.trans (header.trans first)
  exact ⟨inner, last.trans inner⟩

end OneCase

theorem statementBody_case (word : (s.ahead c 0).lexeme = .keyword .CASE) :
    statementBody e rule s c = caseStmt e rule s c := by
  have seen : lexeme s c = .ok (.keyword .CASE) c := word ▸ rfl
  unfold statementBody
  rw [bind_apply, seen]

/-! ### `CASE` with two branches -/

theorem moreBranches_side {fresh : Bool} {c c' : Cursor} (side : Beside x fresh c c')
    (more : x.tail.length < c.rest.length) {b : Bool} (run : moreBranches x.one c = .ok b c) :
    moreBranches x.other c' = .ok b c' := by
  rw [moreBranches_apply] at run ⊢
  rw [side.ahead_lexeme (n := 0) more nofun]
  cases run
  rfl

theorem UnlessLimited.oneBranch {P : CaseBranch → Cursor → Prop}
    (h : UnlessLimited P (caseBranch e rule s c)) (size : Nat) :
    UnlessLimited (fun bs d => ∃ b, bs = [b] ∧ P b d) (oneBranch e rule size s c) :=
  h.bind fun b _ given =>
    (UnlessLimited.checkSize (P := fun _ d => P b d) given).bind fun _ _ given => .ok ⟨b, rfl, given⟩

section Two

variable {y : Transplant} {levels levels' : Nat} {c₂ d₂ c' : Cursor} {selector selector₂ : Expr}
  {b b₂ : CaseBranch}

/-- The first branch ends where the second begins, and the second where it ended. -/
theorem branches_follow (shared : y.other = x.other)
    (one : OneCase (expression levels) (statement levels) x.one c d selector b)
    (two : OneCase (expression levels') (statement levels') y.one c₂ d₂ selector₂ b₂)
    (filled : one.last.rest = x.tail)
    (behind : ∀ c, c.rest = x.tail → endsStatements (x.one.ahead c 0).lexeme = true ∨
      beginsCaseLabel x.one.dialect (c.rest.map Token.lexeme) = true)
    (behind' : ∀ c, c.rest = x.tail' → endsStatements (x.other.ahead c 0).lexeme = true ∨
      beginsCaseLabel x.other.dialect (c.rest.map Token.lexeme) = true)
    (left : y.tail.length + 1 ≤ two.last.rest.length)
    (joined : ∀ m, Beside x false one.last m → Beside y true two.head m)
    (side : Beside x false one.head c') (n k : Nat) :
    UnlessLimited (fun bs m => bs = [b.moved x.shift, b₂.moved y.shift] ∧ Beside y false two.last m)
      (many moreBranches (oneBranch (expression n) (statement n)) k 0 x.other c') := by
  have second := caseBranch_tracks (x := y) (expression_tracks levels' n) (statement_tracks levels' n)
  -- Both branches have a token, so what is looked at before each of them is followed.
  have headLeft : x.tail.length < one.head.rest.length :=
    filled ▸ (caseBranch_passes (x := x) one.branch).length_le
  have headLeft₂ : y.tail.length < two.head.rest.length :=
    Nat.lt_of_succ_le (Nat.le_trans left ((second two.head two.head).passes _ _ two.branch).length_le)
  -- The first branch is read as in its own text; then the reading is beside the second text, whose
  -- branch comes next.
  refine .pass (moreBranches_side side headLeft one.begins) fun k => ?_
  refine ((caseBranch_follows behind behind' side one.branch
    (Nat.le_of_eq (congrArg List.length filled).symm)).oneBranch 0).bind ?_
  rintro _ m ⟨_, rfl, rfl, side⟩
  have side := joined m side
  refine UnlessLimited.bind (P := fun bs m => bs = [b₂.moved y.shift] ∧ Beside y false two.last m)
    (.pass (shared ▸ moreBranches_side side headLeft₂ two.begins) fun k => ?_) ?_
  · have follows := (second two.head m).follows _ _ side two.branch left
    rw [shared] at follows
    refine (follows.oneBranch _).bind ?_
    rintro _ m' ⟨_, rfl, rfl, side⟩
    -- Behind the second branch its own text saw no further one.
    have ends := moreBranches_side side (Nat.lt_of_succ_le left) two.ends
    rw [shared] at ends
    rw [bind_apply, many_done ends]
    exact .ok ⟨rfl, side⟩
  · rintro _ m' ⟨rfl, side⟩
    exact .ok ⟨rfl, side⟩

/-- Behind the last branch both texts go on alike. -/
theorem caseEnd_follows
    (two : OneCase (expression levels') (statement levels') y.one c₂ d₂ selector₂ b₂)
    (left : y.tail.length + 1 ≤ two.last.rest.length) (finished : d₂.rest = y.tail)
    (side : Beside y false two.last c') (n : Nat) (opener : Span)
    (build : Option (List Stmt) → Span → Stmt) :
    UnlessLimited (fun a d' => d'.rest = y.tail' ∧ ∃ span, a = build none span)
      ((elseBody (statement n) >>= fun otherwise => endConstruct .END_CASE opener >>= fun _ =>
        node opener (build otherwise)) y.other c') := by
  have closesTracks : Tracks y false true (fun _ => ()) (endConstruct .END_CASE two.word.span)
      (endConstruct .END_CASE opener) := endConstruct_tracks (by decide) _ _
  refine ((elseBody_tracks (statement_tracks levels' n) two.last c').follows _ _ side two.otherwise
    left).bind ?_
  rintro _ m ⟨rfl, side⟩
  have closedLeft : two.closed.rest = y.tail := two.done.symm.trans finished
  refine ((closesTracks two.last m).follows _ _ side two.closes
    (Nat.le_of_eq (congrArg List.length closedLeft.symm))).bind ?_
  rintro _ m ⟨-, side⟩
  obtain ⟨-, after⟩ := side.behind (by rw [closedLeft]; exact Nat.lt_irrefl _)
  exact .node fun span _ _ _ => ⟨after, span, rfl⟩

/-- Two texts of a `CASE` with one branch each, put together. -/
theorem caseStmt_follows (shared : y.other = x.other)
    (one : OneCase (expression levels) (statement levels) x.one c d selector b)
    (two : OneCase (expression levels') (statement levels') y.one c₂ d₂ selector₂ b₂)
    (filled : one.last.rest = x.tail)
    (behind : ∀ c, c.rest = x.tail → endsStatements (x.one.ahead c 0).lexeme = true ∨
      beginsCaseLabel x.one.dialect (c.rest.map Token.lexeme) = true)
    (behind' : ∀ c, c.rest = x.tail' → endsStatements (x.other.ahead c 0).lexeme = true ∨
      beginsCaseLabel x.other.dialect (c.rest.map Token.lexeme) = true)
    (left : y.tail.length + 1 ≤ two.last.rest.length) (finished : d₂.rest = y.tail)
    (joined : ∀ m, Beside x false one.last m → Beside y true two.head m)
    (side : Beside x true c c') (n : Nat) :
    UnlessLimited (fun a d' => d'.rest = y.tail' ∧ ∃ span, a = .caseOf span (selector.moved x.shift)
        [b.moved x.shift, b₂.moved y.shift] none)
      (caseStmt (expression n) (statement n) x.other c') := by
  -- A token of the stretch is left behind each part of the header.
  obtain ⟨u, of⟩ := one.of
  have headLeft : x.tail.length + 1 ≤ one.head.rest.length :=
    filled ▸ (caseBranch_passes (x := x) one.branch).length_le
  have ofTracks : Tracks x false false (Token.moved x.shift) (expect Keyword.OF) (expect Keyword.OF) :=
    .expect _
  have selectorTracks := expression_tracks (x := x) levels n
  have headerLeft : x.tail.length + 1 ≤ one.header.rest.length :=
    Nat.le_trans headLeft ((ofTracks one.header one.header).passes _ _ of).length_le
  have firstLeft : x.tail.length + 1 ≤ one.first.rest.length :=
    Nat.le_trans headerLeft ((selectorTracks one.first one.first).passes _ _ one.read).length_le
  rw [caseStmt_apply]
  refine ((Tracks.advance c c').follows _ _ side one.opened firstLeft).bind ?_
  rintro _ m ⟨rfl, side⟩
  refine ((selectorTracks one.first m).follows _ _ side.any one.read headerLeft).bind ?_
  rintro _ m ⟨rfl, side⟩
  refine ((ofTracks one.header m).follows _ _ side of headLeft).bind ?_
  rintro _ m ⟨rfl, side⟩
  refine (branches_follow shared one two filled behind behind' left joined side n
    x.other.limits.maxIterations).bind ?_
  rintro _ m ⟨rfl, side⟩
  rw [← shared]
  exact caseEnd_follows two left finished side n _ fun otherwise span => .caseOf span
    (selector.moved x.shift) [b.moved x.shift, b₂.moved y.shift] otherwise

end Two

end Plc.Grammar
