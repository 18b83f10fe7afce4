/-
Titles of regions.

The title of a region is the rest of its line.  The tokens that begin there are passed over, so a title
may hold whatever is cut into tokens that are closed, and the statements behind it are those of their own
text.  But a character that opens a string, a comment or a pragma opens it in a title too, and the
lines that follow are not read as statements any more.

* `skipBefore_passes` — the tokens of the title are passed over;
* `regionText_statements` — a region is its title and the statements of its text;
* `regionText_quoted` — a quote in the title takes the statements with it.
-/
import Plc.Proofs.Moved.Framed

namespace Plc

open Text Grammar Scanner

/-! ### The tokens of a region -/

/-- The line with the title. -/
def titleLine (title : List Char) : List Char := "REGION".toList ++ ' ' :: title

/-- A region, with its title and its statements on lines of their own. -/
def regionText (title body : List Char) : List Char :=
  titleLine title ++ '\n' :: (body ++ '\n' :: "END_REGION".toList)

/-- The words around a region, where they stand. -/
def regionToken : Token := (Word.keyword .REGION).token 0

def endRegionToken (p : Nat) : Token := (Word.keyword .END_REGION).token p

theorem next_region (title : List Char) :
    (⟨0, titleLine title⟩ : Scanner).next .scl = .ok (regionToken, ⟨6, ' ' :: title⟩) := by
  have ends : Lexed.NameEnds (' ' :: title) := by
    intro c hc
    cases hc
    decide
  have stands : (Word.keyword .REGION).Stands .scl (' ' :: title) :=
    Word.stands_keyword (by decide) ends
  exact stands.next 0

/-- The tokens of a region are those of its title line, those of its statements further on, and the word
that closes it. -/
theorem delivers_regionText {title body : List Char} {us ts : List Token}
    (head : Delivers .scl ⟨0, titleLine title⟩ us) (closedHead : ∀ t ∈ us, Lexed.isOpen t.lexeme = false)
    (inner : Delivers .scl ⟨0, body⟩ ts) (closed : ∀ t ∈ ts, Lexed.isOpen t.lexeme = false) :
    Delivers .scl (Scanner.start (regionText title body))
      (us ++ (ts.map (Token.moved ((titleLine title).length + 1)) ++
        [endRegionToken ((titleLine title).length + 1 + body.length + 1)])) := by
  have known : Dialect.scl.reserves .END_REGION = true := by decide
  exact delivers_framed known head closedHead inner closed

/-! ### Reading a region -/

namespace Grammar

variable {s : Setting} {c : Cursor}

/-- The next token begins before an offset. -/
def beginsBefore (stop : Nat) : Rule Bool := do
  return !(← atEnd) && (← peek).span.start < stop

/-- One token is passed over. -/
def passOver (_ : Nat) : Rule (List Unit) := do
  let _ ← advance
  return []

theorem passOver_passes {front back : List Token} {t : Token} {stop : Nat}
    (goes : ∀ u ∈ front, u.lexeme.isFinish = false) (before : ∀ u ∈ front, u.span.start < stop)
    (behind : stop ≤ t.span.start) (n size : Nat) (c : Cursor) (rest : c.rest = front ++ t :: back) :
    UnlessLimited (fun _ d => d.rest = t :: back ∧ d.declared = c.declared)
      (many (beginsBefore stop) passOver n size s c) := by
  have clear (s : Setting) (c : Cursor) : beginsBefore stop s c =
      .ok (!(s.ahead c 0).lexeme.isFinish && decide ((s.ahead c 0).span.start < stop)) c := rfl
  -- One token of the title is passed each time. The first token behind the line ends the passes.
  induction front generalizing n size c with
  | nil =>
    refine .many clear (fun _ => ⟨rest, rfl⟩) fun more => ?_
    rw [Setting.ahead, rest, List.nil_append, List.getD_cons_zero, Bool.and_eq_true,
      decide_eq_true_eq] at more
    -- `t` begins behind the line, so no further pass is made.
    exact absurd more.2 (Nat.not_lt.2 behind)
  | cons u front ih =>
    obtain ⟨goesFirst, goes⟩ := List.forall_mem_cons.1 goes
    obtain ⟨beforeFirst, before⟩ := List.forall_mem_cons.1 before
    refine .many clear (fun done => ?_) fun _ n => ?_
    · rw [Setting.ahead, rest, List.cons_append, List.getD_cons_zero, goesFirst,
        decide_eq_true beforeFirst] at done
      -- The passes cannot be done before `u`, which begins on the line.
      cases done
    · have first : passOver size s c = .ok [] (Triple.past c u (front ++ t :: back)) := by
        unfold passOver
        rw [bind_apply, advance_cons rest]
        rfl
      rw [bind_apply, first]
      exact (ih goes before n size (Triple.past c u (front ++ t :: back)) rfl).bind
        fun _ _ h => .ok h

/-- The tokens that begin before an offset are passed over. -/
theorem skipBefore_passes {front back : List Token} {t : Token} {stop : Nat}
    (rest : c.rest = front ++ t :: back) (goes : ∀ u ∈ front, u.lexeme.isFinish = false)
    (before : ∀ u ∈ front, u.span.start < stop) (behind : stop ≤ t.span.start) :
    UnlessLimited (fun _ d => d.rest = t :: back ∧ d.declared = c.declared) (skipBefore stop s c) :=
  (passOver_passes goes before behind s.limits.maxIterations 0 c rest).bind fun _ _ h => .ok h

/-- A region is read where its statements are, once the tokens of its title are passed over. -/
theorem regionStmt_gives {rule : Rule Stmt} {t u close : Token} {front back : List Token}
    {ss : List Stmt} (rest : c.rest = t :: (front ++ u :: back))
    (goes : ∀ v ∈ front, v.lexeme.isFinish = false)
    (before : ∀ v ∈ front, v.span.start < lineStop s.source t.span.stop)
    (behind : lineStop s.source t.span.stop ≤ u.span.start)
    (word : close.lexeme = .keyword .END_REGION)
    (body : ∀ d, d.rest = u :: back → d.declared = c.declared →
      UnlessLimited (fun ss' d' => ss' = ss ∧ d'.rest = [close]) (statementList rule s d))
    (ends : s.finish.lexeme.isFinish = true) :
    UnlessLimited (fun a d => d.rest = [] ∧ ∃ span, a = .region span
        (String.ofList (trim (slice s.source t.span.stop (lineStop s.source t.span.stop)))) ss ∧
        span.start = t.span.start ∧ span.stop = max close.span.stop t.span.stop)
      (regionStmt rule s c) := by
  unfold regionStmt
  rw [bind_apply, advance_cons rest]
  show UnlessLimited _ ((skipBefore (lineStop s.source t.span.stop) >>= fun _ => _) s
    (Triple.past c t (front ++ u :: back)))
  have rest' : (Triple.past c t (front ++ u :: back)).rest = front ++ u :: back := rfl
  refine (skipBefore_passes rest' goes before behind).bind ?_
  rintro _ d ⟨rest, declared⟩
  refine (body d rest declared).bind ?_
  rintro ss' d' ⟨rfl, rest⟩
  -- The word that closes the region is the last token.
  have last : endConstruct .END_REGION t.span s d' = .ok () (Triple.past d' close []) := by
    have here : sees Keyword.END_REGION s d' = .ok true d' := by
      show EStateM.Result.ok ((s.ahead d' 0).lexeme.is Keyword.END_REGION) d' = _
      rw [Setting.ahead, rest, List.getD_cons_zero, word]
      rfl
    have bare : accept Mark.semicolon s (Triple.past d' close []) =
        .ok false (Triple.past d' close []) := by
      rw [accept_apply]
      rw [show (s.ahead (Triple.past d' close []) 0).lexeme.is Mark.semicolon = false from
        finish_bare ends]
      rfl
    unfold endConstruct
    rw [bind_apply, here]
    show ((advance >>= fun _ => accept Mark.semicolon >>= fun _ => pure ()) s d') = _
    rw [bind_apply, advance_cons rest]
    show ((accept Mark.semicolon >>= fun _ => pure ()) s (Triple.past d' close [])) = _
    rw [bind_apply, bare]
    rfl
  rw [bind_apply, last]
  exact .node fun span usage start stop => ⟨rfl, span, rfl, start, stop⟩

theorem statementBody_region {e : Rule Expr} {rule : Rule Stmt}
    (word : (s.ahead c 0).lexeme = .keyword .REGION) :
    statementBody e rule s c = regionStmt rule s c := by
  have seen : lexeme s c = .ok (.keyword .REGION) c := word ▸ rfl
  unfold statementBody
  rw [bind_apply, seen]

end Grammar

/-! ### Whole regions -/

section Region

variable {title body : List Char}

theorem regionText_parts (title body : List Char) :
    regionText title body =
      "REGION".toList ++ ' ' :: title ++ '\n' :: (body ++ '\n' :: "END_REGION".toList) :=
  rfl

/-- The title of a region is the rest of its line. -/
theorem lineStop_regionText (oneLine : '\n' ∉ title) (body : List Char) :
    lineStop (regionText title body) 6 = (titleLine title).length ∧
      slice (regionText title body) 6 (titleLine title).length = ' ' :: title := by
  have six : "REGION".toList.length = 6 := rfl
  have size : (titleLine title).length = 6 + (' ' :: title).length := List.length_append
  -- The title is in one line, so the line feed that ends it is the one behind it.
  have all : (' ' :: title).takeWhile (· != '\n') = ' ' :: title := by
    refine List.takeWhile_eq_self_iff.2 fun c hc => bne_iff_ne.2 ?_
    rintro rfl
    obtain same | hc := List.mem_cons.1 hc
    · cases same
    · exact oneLine hc
  rw [regionText_parts, size]
  constructor
  · rw [lineStop_part (by rw [six]) (by rw [six]; exact Nat.le_add_right ..) (.lineFeed _), six, Nat.sub_self,
      lineStop, List.drop_zero, all]
    omega
  · rw [slice_part (by rw [six]) (by rw [six]), six, Nat.sub_self, Nat.add_sub_cancel_left, slice,
      List.drop_zero, Nat.sub_zero, List.take_length]

/-- The statements of a region are read like those of their own text. -/
theorem regionBody_follows {declared : List String} {l l' : Limits} {fin fin' : Token}
    {ts : List Token} {ss : List Stmt} {d : Cursor} (ends : fin.lexeme.isFinish = true)
    (inner : Delivers .scl ⟨0, body⟩ ts)
    (run : statementList (statement l.maxDepth) (strictSetting ⟨body, .scl, l⟩ fin)
      (opening declared ts fin) = .ok ss d) (done : d.rest = [])
    (closing : ∀ t ∈ (ts.filter isRead).getLast?, closesStatement t.lexeme = true) {c : Cursor}
    (rest : c.rest = (ts.filter isRead).map (Token.moved ((titleLine title).length + 1)) ++
      [endRegionToken ((titleLine title).length + 1 + body.length + 1)])
    (known : c.declared = [declared]) (levels : Nat) :
    UnlessLimited (fun ss' d' => ss' = ss.map (Stmt.moved ((titleLine title).length + 1)) ∧
        d'.rest = [endRegionToken ((titleLine title).length + 1 + body.length + 1)])
      (statementList (statement levels) (strictSetting ⟨regionText title body, .scl, l'⟩ fin') c) := by
  -- The tokens of the body lie inside of it, which is what the closing word must follow.
  have place : Scanner.In ⟨0, body⟩ body := ⟨Nat.zero_le _, rfl⟩
  have listed : Keyword.END_REGION ∈ endWords := by decide
  refine framedBody_follows listed ends run opening_rest rfl done (fun t ht => ?_) closing rest known levels
  exact (inner.within place t (List.mem_filter.1 ht).1).2.2

theorem regionText_length (title body : List Char) : (regionText title body).length =
    (titleLine title).length + 1 + body.length + 1 + 10 := by
  show (titleLine title ++ '\n' :: (body ++ '\n' :: "END_REGION".toList)).length = _
  rw [List.length_append, List.length_cons, List.length_append, List.length_cons]
  show _ + (_ + (10 + 1) + 1) = _
  omega

/-- A list that begins with a region has this region only. -/
theorem regionList_follows {declared : List String} {l l' : Limits} {fin fin' : Token}
    {ts front : List Token} {ss : List Stmt} {d : Cursor} (oneLine : '\n' ∉ title)
    (ends : fin.lexeme.isFinish = true) (ends' : fin'.lexeme.isFinish = true)
    (inner : Delivers .scl ⟨0, body⟩ ts)
    (run : statementList (statement l.maxDepth) (strictSetting ⟨body, .scl, l⟩ fin)
      (opening declared ts fin) = .ok ss d) (done : d.rest = [])
    (closing : ∀ t ∈ (ts.filter isRead).getLast?, closesStatement t.lexeme = true) {c : Cursor}
    (rest : c.rest = regionToken :: (front ++
      ((ts.filter isRead).map (Token.moved ((titleLine title).length + 1)) ++
        [endRegionToken ((titleLine title).length + 1 + body.length + 1)])))
    (known : c.declared = [declared]) (goes : ∀ v ∈ front, v.lexeme.isFinish = false)
    (before : ∀ v ∈ front, v.span.start < (titleLine title).length) (levels : Nat) :
    UnlessLimited (fun ss' d' => ss' = [.region ⟨0, (regionText title body).length, Nat.zero_le _⟩
        (String.ofList (trim title)) (ss.map (Stmt.moved ((titleLine title).length + 1)))] ∧ d'.rest = [])
      (statementList (statement levels) (strictSetting ⟨regionText title body, .scl, l'⟩ fin') c) := by
  -- The first token behind the title is one of the body, or the closing word if there is none.
  obtain ⟨u, back, more⟩ : ∃ u back,
      (ts.filter isRead).map (Token.moved ((titleLine title).length + 1)) ++
        [endRegionToken ((titleLine title).length + 1 + body.length + 1)] = u :: back :=
    List.exists_cons_of_ne_nil (List.append_ne_nil_of_right_ne_nil _ (List.cons_ne_nil _ _))
  -- Either way it starts in a later line than the title.
  have behind : (titleLine title).length ≤ u.span.start := by
    have hu := List.mem_cons_self (a := u) (l := back)
    rw [← more] at hu
    obtain hu | hu := List.mem_append.1 hu
    · obtain ⟨v, -, rfl⟩ := List.mem_map.1 hu
      exact Nat.le_trans (Nat.le_succ _) (Nat.le_add_left _ _)
    · cases List.mem_singleton.1 hu
      show (titleLine title).length ≤ (titleLine title).length + 1 + body.length + 1
      omega
  obtain ⟨stop, name⟩ := lineStop_regionText oneLine body
  have word : ((strictSetting ⟨regionText title body, .scl, l'⟩ fin').ahead c 0).lexeme =
      .keyword .REGION := by
    rw [Setting.ahead, rest, List.getD_cons_zero]
    rfl
  -- One statement is read, the region; its parts are filled in from the rule for regions.
  have region (n : Nat) : UnlessLimited (fun a d' => d'.rest = [] ∧
        a = .region ⟨0, (regionText title body).length, Nat.zero_le _⟩ (String.ofList (trim title))
          (ss.map (Stmt.moved ((titleLine title).length + 1))))
      (statementBody (expression n) (statement n)
        (strictSetting ⟨regionText title body, .scl, l'⟩ fin') c.enter) := by
    have titled : lineStop (regionText title body) regionToken.span.stop =
        (titleLine title).length := stop
    have rest' : c.enter.rest = regionToken :: (front ++ u :: back) := more ▸ rest
    rw [statementBody_region (c := c.enter) word]
    have gives := @regionStmt_gives (strictSetting ⟨regionText title body, .scl, l'⟩ fin') c.enter
      (statement n) regionToken u
      (endRegionToken ((titleLine title).length + 1 + body.length + 1)) front back
      (ss.map (Stmt.moved ((titleLine title).length + 1))) rest' goes (titled.symm ▸ before)
      (titled.symm ▸ behind) rfl (fun d' left known' => regionBody_follows ends inner run done closing
        (left.trans more.symm) (known'.trans known) n) ends'
    refine gives.mono ?_
    rintro a d' ⟨left, ⟨low, high, ordered⟩, rfl, start, stop'⟩
    -- It reaches from the start of the text to its end.
    obtain rfl : low = 0 := start
    obtain rfl : high = (regionText title body).length := by
      rw [regionText_length]
      exact stop'.trans (Nat.max_eq_left (Nat.le_trans (by decide) (Nat.le_add_left 10 _)))
    have titled : slice (regionText title body) regionToken.span.stop
        (lineStop (regionText title body) regionToken.span.stop) = ' ' :: title := titled ▸ name
    refine ⟨left, ?_⟩
    show _ = Stmt.region _ (String.ofList (trim (' ' :: title))) _
    exact congrArg (fun text => Stmt.region _ (String.ofList (trim text)) _) titled
  -- The closing word ends the region, and the list ends with the text.
  refine (UnlessLimited.oneStatement (by rw [word]; rfl) region (fun _ _ h => h) ?_).mono ?_
  · rintro a d' ⟨rest, -⟩
    rw [Setting.ahead, rest]
    exact endsStatements_of_finish ends'
  · rintro ss' d' ⟨a, rfl, rest, rfl⟩
    exact ⟨rfl, rest⟩

/-- The title of a region is free text, as long as it leaves nothing open.  A region of statements that
are read on their own is read as one region; its name is the title without the blanks around it, and its
body is these statements, as far on as they stand.  Only a limit can come in between. -/
theorem regionText_statements {title body : List Char} {declared : List String} {ss : List Stmt}
    (l l' : Limits) (oneLine : '\n' ∉ title)
    (closed : leavesNothingOpen .scl (titleLine title) = true) (mark : body.head? ≠ some '\ufeff')
    (read : (Reading.mk body .scl l).statements declared = .ok ss) :
    (Reading.mk (regionText title body) .scl l').statements declared =
        .ok [.region ⟨0, (regionText title body).length, Nat.zero_le _⟩ (String.ofList (trim title))
          (ss.map (Stmt.moved ((titleLine title).length + 1)))] ∨
      ∃ e, (Reading.mk (regionText title body) .scl l').statements declared = .error (.limit e) := by
  obtain ⟨us, head, closedHead⟩ := delivers_of_leavesNothingOpen closed
  obtain ⟨ts, fin, d, inner, ends, run, done, closing, closedInner⟩ := Reading.statements_eq_ok read
  rw [Scanner.start_plain mark] at inner
  suffices list : ∀ fin', fin'.lexeme.isFinish = true → UnlessLimited (fun ss' d' =>
      ss' = [.region ⟨0, (regionText title body).length, Nat.zero_le _⟩ (String.ofList (trim title))
        (ss.map (Stmt.moved ((titleLine title).length + 1)))] ∧ d'.rest = [])
      (statementList (statement l'.maxDepth) (strictSetting ⟨regionText title body, .scl, l'⟩ fin')
        (opening declared (us ++ (ts.map (Token.moved ((titleLine title).length + 1)) ++
          [endRegionToken ((titleLine title).length + 1 + body.length + 1)])) fin')) by
    obtain ⟨_, rfl, given⟩ | limited :=
      Reading.statements_of_list (delivers_regionText head closedHead inner closedInner) list
    · exact .inl given
    · exact .inr limited
  intro fin' ends'
  -- The word `REGION` comes first, and the other tokens of its line begin before the end of the line.
  have place : Scanner.In ⟨0, titleLine title⟩ (titleLine title) := ⟨Nat.zero_le _, rfl⟩
  have goesHead := head.goes
  have within := Delivers.within head place
  cases head with
  | nil last finish =>
    cases (next_region title).symm.trans last
    cases finish
  | @cons _ m t us first goes rest =>
    cases (next_region title).symm.trans first
    have tokens : (opening declared (regionToken :: us ++
        (ts.map (Token.moved ((titleLine title).length + 1)) ++
          [endRegionToken ((titleLine title).length + 1 + body.length + 1)])) fin').rest =
        regionToken :: (us.filter isRead ++
          ((ts.filter isRead).map (Token.moved ((titleLine title).length + 1)) ++
            [endRegionToken ((titleLine title).length + 1 + body.length + 1)])) := by
      rw [opening_rest, List.cons_append, List.filter_cons_of_pos rfl, List.filter_append,
        List.filter_append, filter_isRead_moved, List.filter_cons_of_pos rfl, List.filter_nil]
    refine regionList_follows oneLine ends ends' inner run done closing tokens rfl (fun v hv => ?_)
      (fun v hv => ?_) _
    · exact goesHead v (.tail _ (List.mem_filter.1 hv).1)
    · obtain ⟨-, some_char, stop⟩ := within v (.tail _ (List.mem_filter.1 hv).1)
      omega

/-- One assignment is read. -/
theorem oneAssignment_statements :
    ∃ ss, (Reading.mk "x := 1;".toList .scl {}).statements [] = .ok ss :=
  ok_of_isSome (by decide +kernel)

/-- A title with a bracket in it, over one assignment. -/
theorem regionText_statements_pump :
    '\n' ∉ "pump (1)".toList ∧ leavesNothingOpen .scl (titleLine "pump (1)".toList) = true ∧
      "x := 1;".toList.head? ≠ some '\ufeff' ∧
      ∃ ss, (Reading.mk "x := 1;".toList .scl {}).statements [] = .ok ss ∧
        ((Reading.mk (regionText "pump (1)".toList "x := 1;".toList) .scl {}).statements [] =
            .ok [.region ⟨0, 34, by decide⟩ "pump (1)" (ss.map (Stmt.moved 16))] ∨
          ∃ e, (Reading.mk (regionText "pump (1)".toList "x := 1;".toList) .scl {}).statements [] =
            .error (.limit e)) := by
  obtain ⟨ss, read⟩ := oneAssignment_statements
  exact ⟨by decide, rfl, by decide, ss, read,
    regionText_statements {} {} (by decide) rfl (by decide) read⟩

/-- Not every line is a title: a quote opens a string, which takes the statements with it. -/
theorem regionText_quoted :
    ¬∀ (title body : List Char) (ss : List Stmt), '\n' ∉ title → body.head? ≠ some '\ufeff' →
      (Reading.mk body .scl {}).statements [] = .ok ss →
      (Reading.mk (regionText title body) .scl {}).statements [] =
        .ok [.region ⟨0, (regionText title body).length, Nat.zero_le _⟩ (String.ofList (trim title))
          (ss.map (Stmt.moved ((titleLine title).length + 1)))] := by
  intro free
  have refused : ((Reading.mk (regionText "it's a title".toList "x := 1;".toList) .scl {}).statements
      []).toOption.isSome = false := by decide +kernel
  obtain ⟨ss, read⟩ := oneAssignment_statements
  rw [free _ _ ss (by decide) (by decide) read] at refused
  cases refused

end Region

end Plc
