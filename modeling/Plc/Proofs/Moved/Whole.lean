/-
Whole texts of statements.

A text of statements is cut into tokens, and a list of statements is read that comes to the end of
the tokens.  A text that stands inside another has its tokens there, further on.

* `statements_eq_ok`, `statements_of_list` — from a text to the list, and back;
* `Transplant.between` — two texts that have a part in common;
* `UnlessLimited.oneStatement`, `statement_inside` — a list of one statement.
-/
import Plc.Proofs.Formatting.Reading
import Plc.Proofs.Moved.Stmt
import Plc.Proofs.Recovery.Statements
import Plc.Proofs.Token.Feed

namespace Plc.Grammar

variable {α : Type} {s : Setting} {c d : Cursor}

/-! ### Runs that a limit may end -/

namespace UnlessLimited

variable {P Q : α → Cursor → Prop}

theorem checkSize {P : Unit → Cursor → Prop} {size : Nat} {span : Span} (h : P () c) :
    UnlessLimited P (Grammar.checkSize size span s c) := by
  unfold Grammar.checkSize
  rw [checkLimit_apply]
  cases s.limits.check .collectionSize size span with
  | ok _ => exact .ok h
  | error e => exact .limit e c

theorem node {start : Span} {build : Span → α}
    (h : ∀ span usage, span.start = start.start → span.stop = max c.lastStop start.stop →
      P (build span) { c with usage }) : UnlessLimited P (Grammar.node start build s c) := by
  show UnlessLimited P ((Grammar.checkLimit .nodes c.usage.addNode.nodes _ >>= fun _ => pure (build _)) s
    { c with usage := c.usage.addNode })
  rw [bind_apply, checkLimit_apply]
  cases s.limits.check .nodes c.usage.addNode.nodes _ with
  | ok _ => exact .ok (h _ _ rfl rfl)
  | error e => exact .limit e _

theorem nested {r : Rule α} (h : UnlessLimited P (r s c.enter)) (after : ∀ a d, P a d → Q a d.leave) :
    UnlessLimited Q (Grammar.nested r s c) := by
  unfold Grammar.nested
  rw [bracket_apply]
  generalize r s c.enter = run at h
  cases h with
  | ok h => exact .ok (after _ _ h)
  | limit e d => exact .limit e _

theorem recovering {stops : Lexeme → Bool} {pastSemicolon : Bool} {r : Rule α}
    (h : UnlessLimited P (r s c)) :
    UnlessLimited (fun o d => ∃ a, o = some a ∧ P a d)
      (Grammar.recovering stops pastSemicolon r s c) := by
  unfold Grammar.recovering
  generalize r s c = run at h
  cases h with
  | ok h => exact .ok ⟨_, rfl, h⟩
  | limit e d => exact .limit e d

/-- A loop that makes a pass. -/
theorem pass {more : Rule Bool} {item : Nat → Rule (List α)} {Q : List α → Cursor → Prop}
    (begins : more s c = .ok true c) {n size : Nat}
    (later : ∀ n, UnlessLimited Q ((item size >>= fun xs =>
      Grammar.many more item n (size + xs.length) >>= fun ys => pure (xs ++ ys)) s c)) :
    UnlessLimited Q (Grammar.many more item n size s c) := by
  cases n with
  | zero =>
    obtain ⟨e, limit⟩ : ∃ e, Grammar.many more item 0 size s c = .error (.limit e) c := many_zero begins
    rw [limit]
    exact .limit e c
  | succ n =>
    rw [many_succ begins]
    exact later n

/-- A loop that may end here, or make a pass and go on. -/
theorem many {more : Rule Bool} {item : Nat → Rule (List α)} {value : Setting → Cursor → Bool}
    {Q : List α → Cursor → Prop} (hmore : ∀ s c, more s c = .ok (value s c) c) {n size : Nat}
    (done : value s c = false → Q [] c)
    (later : value s c = true → ∀ n, UnlessLimited Q ((item size >>= fun xs =>
      Grammar.many more item n (size + xs.length) >>= fun ys => pure (xs ++ ys)) s c)) :
    UnlessLimited Q (Grammar.many more item n size s c) := by
  cases hv : value s c with
  | false =>
    rw [many_done (hv ▸ hmore s c)]
    exact .ok (done hv)
  | true => exact pass (hv ▸ hmore s c) (later hv)

end UnlessLimited

/-! ### Lists of one statement -/

/-- The list is not told to stop. -/
def neverStops (_ : Setting) (_ : Cursor) : Bool := false

theorem pure_neverStops (s : Setting) (c : Cursor) :
    (pure false : Rule Bool) s c = .ok (neverStops s c) c :=
  rfl

/-- A list runs up to a word that ends it. -/
theorem moreStatements_plain (s : Setting) (c : Cursor) : moreStatements (pure false) s c =
    .ok (!endsStatements (s.ahead c 0).lexeme) c := by
  rw [moreStatements_eq pure_neverStops, neverStops, Bool.not_false, Bool.and_true]

theorem statementList_apply (rule : Rule Stmt) : statementList rule s c =
    many (moreStatements (pure false)) (oneMore rule) s.limits.maxIterations 0 s c :=
  rfl

/-- A list of one statement is read where one statement is, and behind it a word that ends the list. -/
theorem UnlessLimited.oneStatement {P : Stmt → Cursor → Prop} {levels : Nat}
    (begins : endsStatements (s.ahead c 0).lexeme = false)
    (body : ∀ n, UnlessLimited P (statementBody (expression n) (statement n) s c.enter))
    (stays : ∀ a d, P a d → P a d.leave)
    (ends : ∀ a d, P a d → endsStatements (s.ahead d 0).lexeme = true) :
    UnlessLimited (fun ss d => ∃ a, ss = [a] ∧ P a d) (statementList (statement levels) s c) := by
  -- The first pass reads the statement. A second one would begin at a word that ends statements.
  have one : UnlessLimited (fun ss d => ∃ a, ss = [a] ∧ P a d) (oneMore (statement levels) 0 s c) := by
    have inner : UnlessLimited P (statement levels s c) := by
      cases levels with
      | zero => exact .limit _ _
      | succ n => exact .nested (body n) stays
    refine inner.recovering.bind ?_
    rintro o d ⟨a, rfl, h⟩
    exact (UnlessLimited.checkSize (P := fun _ d => P a d) h).bind fun _ d h => .ok ⟨a, rfl, h⟩
  rw [statementList_apply]
  refine .many moreStatements_plain (fun done => ?_) fun _ n => one.bind ?_
  · rw [begins] at done
    cases done
  · rintro ss d ⟨a, rfl, h⟩
    refine UnlessLimited.bind (P := fun ss' d' => ss' = [] ∧ d' = d)
      (.many moreStatements_plain (fun _ => ⟨rfl, rfl⟩) fun more => ?_) ?_
    · rw [ends a d h] at more
      cases more
    · rintro ss' d' ⟨rfl, rfl⟩
      exact .ok ⟨a, rfl, h⟩

/-- Without recovery each pass of a list gives one statement. -/
theorem oneMore_eq_ok {levels size : Nat} {ss : List Stmt} (strict : s.recovers = false)
    (run : oneMore (statement levels) size s c = .ok ss d) :
    ∃ a, ss = [a] ∧ statement levels s c = .ok a d := by
  obtain ⟨o, m, tried, run⟩ := bind_eq_ok_iff.1 run
  obtain ⟨a, rfl, ran⟩ := recovering_eq_ok strict tried
  replace run : (checkSize (size + 1) a.span >>= fun _ => pure [a]) s m = .ok ss d := run
  obtain ⟨_, m', sized, given⟩ := bind_eq_ok_iff.1 run
  obtain ⟨-, rfl⟩ := checkLimit_eq_ok sized
  cases given
  exact ⟨a, rfl, ran⟩

/-- The statement of a list of one. -/
theorem statement_inside {levels : Nat} {a : Stmt} (strict : s.recovers = false)
    (run : statementList (statement levels) s c = .ok [a] d) :
    endsStatements (s.ahead c 0).lexeme = false ∧ ∃ n m,
      statementBody (expression n) (statement n) s c.enter = .ok a m ∧ d = m.leave := by
  rw [statementList_apply] at run
  obtain ⟨begins, first, -⟩ := many_eq_one moreStatements_plain
    (fun size c ss m run => let ⟨b, same, _⟩ := oneMore_eq_ok strict run; ⟨b, same⟩) run
  obtain ⟨b, same, ran⟩ := oneMore_eq_ok strict first
  cases same
  refine ⟨by rwa [Bool.not_eq_true'] at begins, ?_⟩
  cases levels with
  | zero => cases ran
  | succ n =>
    rw [statement, nested, bracket_apply] at ran
    cases hrun : statementBody (expression n) (statement n) s c.enter with
    | error e m =>
      rw [hrun] at ran
      cases ran
    | ok a' m =>
      rw [hrun] at ran
      cases ran
      exact ⟨n, m, hrun, rfl⟩

theorem endsStatements_of_finish {l : Lexeme} (h : l.isFinish = true) : endsStatements l = true := by
  unfold endsStatements
  rw [h]
  rfl

/-! ### A part that two texts have in common -/

/-- Nothing comes, or a line feed. -/
def EndsLine (back : List Char) : Prop :=
  ∀ c ∈ back.head?, c = '\n'

theorem EndsLine.nil : EndsLine [] := by
  rintro c ⟨⟩

theorem EndsLine.lineFeed (back : List Char) : EndsLine ('\n' :: back) := by
  rintro c ⟨⟩
  rfl

section Part

open Text

variable {front mid back : List Char} {i j : Nat}

theorem slice_part (low : front.length ≤ i) (high : j ≤ front.length + mid.length) :
    slice (front ++ mid ++ back) i j = slice mid (i - front.length) (j - front.length) := by
  unfold slice
  obtain ⟨n, rfl⟩ := Nat.exists_eq_add_of_le low
  rw [List.append_assoc, List.drop_length_add_append, Nat.add_sub_cancel_left, List.drop_append,
    List.take_append_of_le_length]
  · congr 1
    omega
  · rw [List.length_drop]
    omega

theorem lineStop_part (low : front.length ≤ i) (high : i ≤ front.length + mid.length)
    (ends : EndsLine back) : lineStop (front ++ mid ++ back) i =
      lineStop mid (i - front.length) + front.length := by
  unfold lineStop
  obtain ⟨n, rfl⟩ := Nat.exists_eq_add_of_le low
  have stop : ∀ c ∈ back.head?, (c != '\n') = false := by
    intro c hc
    rw [ends c hc]
    rfl
  rw [List.append_assoc, List.drop_length_add_append, Nat.add_sub_cancel_left,
    List.drop_append_of_le_length (by omega), Lexed.takeWhile_append_rest stop]
  omega

theorem lineStop_le {source : List Char} (h : i ≤ source.length) : lineStop source i ≤ source.length := by
  have shorter := (List.takeWhile_prefix (l := source.drop i) (· != '\n')).length_le
  rw [List.length_drop] at shorter
  unfold lineStop
  omega

end Part

/-- Two texts have a part in common, in the other text `k` characters further on. -/
structure Common (one other : List Char) (k low high : Nat) : Prop where
  slice : ∀ i j, low ≤ i → j ≤ high → Text.slice other (i + k) (j + k) = Text.slice one i j
  line : ∀ i, low ≤ i → i ≤ high → Text.lineStop one i ≤ high ∧
    Text.lineStop other (i + k) = Text.lineStop one i + k

theorem common_part {front front' back back' : List Char} (mid : List Char) {k : Nat}
    (further : front'.length = front.length + k) (ends : EndsLine back) (ends' : EndsLine back') :
    Common (front ++ mid ++ back) (front' ++ mid ++ back') k front.length
      (front.length + mid.length) where
  slice i j low high := by
    rw [slice_part low high, slice_part (by omega) (by omega), further, Nat.add_sub_add_right,
      Nat.add_sub_add_right]
  line i low high := by
    have within : i - front.length ≤ mid.length := by omega
    rw [lineStop_part low high ends, lineStop_part (by omega) (by omega) ends', further,
      Nat.add_sub_add_right]
    have := lineStop_le within
    omega

theorem finish_bare {l : Lexeme} (ends : l.isFinish = true) : l.is Mark.semicolon = false := by
  cases l with
  | finish => rfl
  | _ => cases ends

/-- A text beside itself. -/
def Transplant.self (s : Setting) (strict : s.recovers = false)
    (ends : s.finish.lexeme.isFinish = true) : Transplant where
  one := s
  other := s
  shift := 0
  low := 0
  high := s.source.length
  tail := []
  tail' := []
  dialect := rfl
  strict := ⟨strict, strict⟩
  ends := ends
  slice _ _ _ _ := rfl
  line _ _ high := ⟨lineStop_le high, rfl⟩
  bare := ⟨finish_bare ends, finish_bare ends⟩

/-- A list of statements passes over no token, or the last one closes a statement. -/
theorem list_passes {stop : Rule Bool} {value : Setting → Cursor → Bool}
    (hstop : ∀ s c, stop s c = .ok (value s c) c) (strict : s.recovers = false)
    (ends : s.finish.lexeme.isFinish = true) {levels : Nat} {ss : List Stmt}
    (run : statementListUntil stop (statement levels) s c = .ok ss d) :
    ss = [] ∧ d = c ∨ ReadsOver true c d :=
  statements_passes (x := .self s strict ends) hstop run

/-! ### From texts to tokens -/

/-- The token is for the grammar to read. -/
def isRead (t : Token) : Bool :=
  match t.lexeme with
  | .pragma _ => false
  | _ => true

theorem liftPragmas_fst (index : Nat) (pending ts : List Token) :
    (liftPragmas index pending ts).1 = ts.filter isRead := by
  induction ts generalizing index pending with
  | nil => rfl
  | cons t ts ih =>
    unfold liftPragmas
    rw [List.filter_cons]
    split
    · next h =>
      rw [if_neg (by rw [isRead, h]; exact Bool.false_ne_true)]
      exact ih _ _
    · next h =>
      rw [if_pos (by unfold isRead; split; exact absurd ‹_› (h _); rfl)]
      exact congrArg (t :: ·) (ih _ _)

/-- Where the last token that is read closes a statement, the last token is closed. -/
theorem closed_of_closing {ts : List Token}
    (h : ∀ t ∈ (ts.filter isRead).getLast?, closesStatement t.lexeme = true) :
    ∀ t ∈ ts.getLast?, Lexed.isOpen t.lexeme = false := by
  rcases List.eq_nil_or_concat ts with rfl | ⟨front, t, rfl⟩
  · rintro _ ⟨⟩
  · intro u hu
    rw [List.concat_eq_append, Option.mem_def, List.getLast?_concat] at hu
    cases hu
    refine Lexed.isOpen_of_well fun e same => ?_
    have read : [t].filter isRead = [t] := List.filter_cons_of_pos (by rw [isRead, same])
    rw [List.concat_eq_append, List.filter_append, read, List.getLast?_concat] at h
    have closing := h t rfl
    rw [same] at closing
    cases closing

theorem filter_isRead_moved (k : Nat) (ts : List Token) :
    (ts.map (Token.moved k)).filter isRead = (ts.filter isRead).map (Token.moved k) :=
  List.filter_map

/-- The cursor before the tokens of a text, where names are declared. -/
def opening (declared : List String) (ts : List Token) (fin : Token) : Cursor :=
  { Cursor.before (ts ++ [fin]) with declared := [declared] }

variable {declared : List String} {ts : List Token} {fin : Token}

theorem before_rest : (Cursor.before (ts ++ [fin])).rest = ts.filter isRead := by
  show (liftPragmas 0 [] (ts ++ [fin]).dropLast).1 = _
  rw [List.dropLast_concat, liftPragmas_fst]

theorem opening_rest : (opening declared ts fin).rest = ts.filter isRead :=
  before_rest

/-- A reading without recovery. -/
def strictSetting (r : Reading) (fin : Token) : Setting :=
  ⟨r.source, r.dialect, r.limits, false, fin⟩

/-- Two texts that have a part in common, where neither reading recovers from errors. -/
def Transplant.between (r r' : Reading) (fin fin' : Token) {shift low high : Nat}
    (tail tail' : List Token) (common : Common r.source r'.source shift low high) (dialect : r.dialect = r'.dialect)
    (ends : fin.lexeme.isFinish = true)
    (bare : (tail.getD 0 fin).lexeme.is Mark.semicolon = false ∧
      (tail'.getD 0 fin').lexeme.is Mark.semicolon = false) : Transplant where
  one := strictSetting r fin
  other := strictSetting r' fin'
  shift := shift
  low := low
  high := high
  tail := tail
  tail' := tail'
  dialect := dialect
  strict := ⟨rfl, rfl⟩
  ends := ends
  slice := common.slice
  line := common.line
  bare := bare

end Plc.Grammar

namespace Plc

open Scanner

/-- The text is cut into tokens, and each of them is closed. -/
def leavesNothingOpen (d : Dialect) (text : List Char) : Bool :=
  match tokens d text with
  | .ok ts => ts.all fun t => !Lexed.isOpen t.lexeme
  | .error _ => false

theorem delivers_of_leavesNothingOpen {d : Dialect} {text : List Char}
    (h : leavesNothingOpen d text = true) : ∃ ts, Delivers d (Scanner.start text) ts ∧
      ∀ t ∈ ts, Lexed.isOpen t.lexeme = false := by
  unfold leavesNothingOpen at h
  split at h
  · next all cut =>
    obtain ⟨ts, fin, rfl, -, delivers⟩ := delivers_of_tokens cut
    refine ⟨ts, delivers, fun t ht => ?_⟩
    have closed := List.all_eq_true.1 h t (List.mem_append_left _ ht)
    rwa [Bool.not_eq_true'] at closed
  · cases h

end Plc

namespace Plc.Reading

open Grammar Scanner

variable {r : Reading} {declared : List String} {ss : List Stmt} {ts : List Token} {fin : Token}

theorem bodyWith_strict {s : Setting} (strict : s.recovers = false) (rule : Rule Stmt)
    (ends : List Keyword) (c : Cursor) : bodyWith rule ends s c = statementList rule s c := by
  have clear (c : Cursor) : seesStray ends s c = .ok false c := by
    show EStateM.Result.ok (s.recovers && _) c = _
    rw [strict, Bool.false_and]
  unfold bodyWith
  rw [bind_apply]
  cases statementList rule s c with
  | error e m => rfl
  | ok ss m =>
    have done (n : Nat) : many (seesStray ends) (afterStray rule ends) n ss.length s m = .ok [] m :=
      many_done (clear m)
    show (many (seesStray ends) (afterStray rule ends) s.limits.maxIterations ss.length >>= fun others =>
      pure (ss ++ others)) s m = _
    rw [bind_apply, done]
    exact congrArg (EStateM.Result.ok · m) (List.append_nil ss)

/-- The body of a text is a list of statements. -/
theorem declared_body : declaring declared (body r.limits.maxDepth [])
    ⟨r.source, r.dialect, r.limits, false, fin⟩ (.before (ts ++ [fin])) =
      closing (fun c => { c with declared := c.declared.tail })
        (statementList (statement r.limits.maxDepth) (strictSetting r fin) (opening declared ts fin)) := by
  unfold declaring body
  rw [bracket_apply, bodyWith_strict rfl]
  rfl

/-- A list of statements behind which the text may end has left no token: those that are left are tokens of
the text, and none of them is its end. -/
theorem rest_eq_nil {d m : Cursor} (reads : Delivers r.dialect (Scanner.start r.source) ts)
    (run : statementList (statement r.limits.maxDepth) (strictSetting r fin) (opening declared ts fin) =
      .ok ss d)
    (last : finishText (strictSetting r fin) { d with declared := d.declared.tail } = .ok () m) :
    d.rest = [] := by
  have leads := Course.grammar ReadsOver.course
  have list : Leads (fun _ c d => ReadsOver false c d) (statementList (statement r.limits.maxDepth)) :=
    leads.statementList_rel (s := statement r.limits.maxDepth) (leads.statement_rel (.refl _))
  obtain ⟨front, passed, -⟩ := ReadsOver.of_leads list run
  -- A token that is left over goes on the text, so the final check would have refused it.
  cases hd : d.rest with
  | nil => rfl
  | cons t rest =>
    have listed : t ∈ ts.filter isRead := by
      rw [← opening_rest, passed, hd]
      exact List.mem_append_right _ List.mem_cons_self
    have goes := reads.goes t ((List.mem_filter.1 listed).1)
    have more : ((strictSetting r fin).next { d with declared := d.declared.tail }).lexeme.isFinish =
        false := by
      rw [Setting.next, hd]
      exact goes
    have stray := finishText_strict more
    cases stray.symm.trans last

/-- The last token of a list that comes to the end of the tokens closes a statement. -/
theorem closesStatement_of_getLast {d : Cursor} (ends : fin.lexeme.isFinish = true)
    (run : statementList (statement r.limits.maxDepth) (strictSetting r fin) (opening declared ts fin) =
      .ok ss d)
    (done : d.rest = []) : ∀ t ∈ (ts.filter isRead).getLast?, closesStatement t.lexeme = true := by
  rw [← @opening_rest declared ts fin]
  obtain ⟨-, rfl⟩ | ⟨front, passed, last⟩ := list_passes pure_neverStops rfl ends run
  · rw [done]
    rintro _ ⟨⟩
  · rw [passed, done, List.append_nil]
    obtain ⟨t, ht, closing⟩ := last rfl
    intro u hu
    cases hu.symm.trans ht
    exact closing

/-- The statements of a text are a list that comes to the end of its tokens. -/
theorem statements_eq_ok (h : r.statements declared = .ok ss) :
    ∃ ts fin d, Delivers r.dialect (Scanner.start r.source) ts ∧ fin.lexeme.isFinish = true ∧
      statementList (statement r.limits.maxDepth) (strictSetting r fin) (opening declared ts fin) =
        .ok ss d ∧ d.rest = [] ∧
      (∀ t ∈ (ts.filter isRead).getLast?, closesStatement t.lexeme = true) ∧
      ∀ t ∈ ts, Lexed.isOpen t.lexeme = false := by
  obtain ⟨errors, h⟩ := strictly_eq_ok_iff.1 h
  obtain ⟨all, c, within, run, -⟩ := run_eq_ok_iff.1 h
  obtain ⟨ts, fin, rfl, ends, reads⟩ := delivers_of_tokens (tokens_of_tokensWithin within)
  rw [List.getLastD_concat] at run
  obtain ⟨ss', m, inner, run⟩ := bind_eq_ok_iff.1 run
  obtain ⟨_, m', last, same⟩ := bind_eq_ok_iff.1 run
  cases same
  rw [declared_body] at inner
  cases hrun : statementList (statement r.limits.maxDepth) (strictSetting r fin)
      (opening declared ts fin) with
  | error e d =>
    rw [hrun] at inner
    cases inner
  | ok ss d =>
    rw [hrun] at inner
    cases inner
    have done := rest_eq_nil reads hrun last
    have closing := closesStatement_of_getLast ends hrun done
    exact ⟨ts, fin, d, reads, ends, hrun, done, closing, reads.closed (closed_of_closing closing)⟩

/-- What a rule gives where the tokens of a text come, it gives for the text, unless a limit is
passed. -/
theorem strictly_of_run {α : Type} {rule : Nat → Rule α} {P : α → Prop}
    (reads : Delivers r.dialect (Scanner.start r.source) ts)
    (given : ∀ fin, fin.lexeme.isFinish = true → UnlessLimited (fun a _ => P a)
      (rule r.limits.maxDepth (strictSetting r fin) (.before (ts ++ [fin])))) :
    (∃ a, P a ∧ r.strictly rule = .ok a) ∨ ∃ e, r.strictly rule = .error (.limit e) := by
  obtain ⟨fin, cut, ends⟩ := reads.tokens
  unfold strictly Grammar.run
  -- The text may exceed the size, and its tokens the number of passes, before the rule begins.
  by_cases small : utf8Size r.source ≤ r.limits.maxInputSize
  · rw [tokensWithin_small cut small]
    cases (ts ++ [fin]).drop r.limits.maxIterations with
    | cons t _ => exact .inr ⟨_, rfl⟩
    | nil =>
      dsimp only
      rw [List.getLastD_concat]
      have given := given fin ends
      unfold strictSetting at given
      generalize rule _ _ _ = run at given ⊢
      cases given with
      | limit e d => exact .inr ⟨e, rfl⟩
      | @ok a d h => exact .inl ⟨a, h, rfl⟩
  · rw [tokensWithin_tooBig small]
    exact .inr ⟨_, rfl⟩

/-- A list that comes to the end of the tokens gives the statements of the text, unless a limit is
passed. -/
theorem statements_of_list {P : List Stmt → Prop} (reads : Delivers r.dialect (Scanner.start r.source) ts)
    (list : ∀ fin, fin.lexeme.isFinish = true → UnlessLimited (fun ss d => P ss ∧ d.rest = [])
      (statementList (statement r.limits.maxDepth) (strictSetting r fin) (opening declared ts fin))) :
    (∃ ss, P ss ∧ r.statements declared = .ok ss) ∨ ∃ e, r.statements declared = .error (.limit e) := by
  refine strictly_of_run reads fun fin ends => ?_
  have inner := list fin ends
  unfold allStatements strictSetting
  rw [bind_apply, declared_body]
  generalize statementList _ _ _ = run at inner ⊢
  cases inner with
  | limit e d => exact .limit e _
  | @ok ss d h =>
    obtain ⟨holds, done⟩ := h
    have finished : finishText ⟨r.source, r.dialect, r.limits, false, fin⟩
        { d with declared := d.declared.tail } = _ :=
      finishText_done (by rw [Setting.next, done]; exact ends)
    show UnlessLimited _ ((finishText >>= fun _ => pure ss) _ _)
    rw [bind_apply, finished]
    exact .ok holds

end Plc.Reading
