/-
Texts of a `CASE`.

Two texts of a `CASE` with one branch each, about the same selector, may be put together to one text
with both branches.  The first label of a `CASE` may be any expression; a later one ends the statements
before it only where it is told from a statement by a few tokens.

* `tokensFrom_caseText`, `delivers_caseText` — the tokens of the branches in each of the texts;
* `caseText_first`, `caseText_second` — what was read of the two texts;
* `caseText_branches` — the text with both branches;
* `caseText_unknown` — a label that is not told from a statement.
-/
import Plc.Proofs.Moved.Branch

namespace Plc

open Text Grammar Scanner

/-! ### The tokens of a `CASE` -/

/-- The first lines of a `CASE`, with the selector on a line of its own. -/
def caseHead (selector : List Char) : List Char :=
  "CASE".toList ++ '\n' :: (selector ++ '\n' :: "OF".toList)

/-- A branch: its labels, a colon and its statements on lines of their own. -/
def caseArm (labels body : List Char) : List Char :=
  labels ++ '\n' :: ':' :: '\n' :: body

/-- The last line of a `CASE`. -/
def caseEnd : List Char := "END_CASE;".toList

theorem caseEnd_closes_nothing {e : Char} (closes : e ∈ Lexed.closingChars) : e ∉ caseEnd := by
  have one : e = '*' ∨ e = '\'' ∨ e = '"' ∨ e = '\x7d' := by
    simpa [Lexed.closingChars] using closes
  rcases one with rfl | rfl | rfl | rfl <;> decide

/-- A `CASE` with the given branches. -/
def caseText (selector arms : List Char) : List Char :=
  caseHead selector ++ '\n' :: (arms ++ '\n' :: caseEnd)

/-- The tokens of a text from an offset on, for the grammar to read. -/
def tokensFrom (d : Dialect) (text : List Char) (offset : Nat) : List Token :=
  match tokens d text with
  | .ok ts => ts.dropLast.filter fun t => isRead t && decide (offset ≤ t.span.start)
  | .error _ => []

/-- The words around a `CASE`, where they stand. -/
def caseToken : Token := (Word.keyword .CASE).token 0

def endCaseToken (p : Nat) : Token := (Word.keyword .END_CASE).token p

def semicolonToken (p : Nat) : Token := (Word.mark .semicolon).token p

theorem next_case (d : Dialect) (rest : List Char) :
    (⟨0, "CASE".toList ++ '\n' :: rest⟩ : Scanner).next d = .ok (caseToken, ⟨4, '\n' :: rest⟩) := by
  have ends : Lexed.NameEnds ('\n' :: rest) := by
    intro c hc
    cases hc
    decide
  have stands : (Word.keyword .CASE).Stands d ('\n' :: rest) :=
    Word.stands_keyword rfl ends
  exact stands.next 0

theorem delivers_caseEnd (d : Dialect) (p : Nat) :
    Delivers d ⟨p, caseEnd⟩ [endCaseToken p, semicolonToken (p + 8)] := by
  have ends : Lexed.NameEnds [';'] := by
    intro c hc
    cases hc
    decide
  have word : (Word.keyword .END_CASE).Stands d [';'] :=
    Word.stands_keyword rfl ends
  have mark : (Word.mark .semicolon).Stands d [] := Word.stands_mark d rfl
  have last := mark.next (p + 8)
  rw [List.append_nil] at last
  exact .cons (word.next p) rfl (.cons last rfl (.nil rfl rfl))

/-- The text up to the last line of a `CASE` is cut into tokens of its own. -/
theorem tokens_of_caseText {d : Dialect} {selector arms : List Char} {ts : List Token}
    (whole : Delivers d (Scanner.start (caseText selector arms)) ts)
    (closed : ∀ t ∈ ts, Lexed.isOpen t.lexeme = false) :
    ∃ us p, ts = us ++ [endCaseToken p, semicolonToken (p + 8)] ∧
      Delivers d ⟨0, caseHead selector ++ '\n' :: arms⟩ us := by
  have same : Scanner.start (caseText selector arms) =
      Scanner.feed caseEnd ⟨0, caseHead selector ++ '\n' :: arms⟩ := by
    show (⟨0, caseText selector arms⟩ : Scanner) = _
    rw [caseText, feed, List.append_assoc]
    rfl
  rw [same] at whole
  obtain ⟨us, vs, rfl, front, last⟩ := whole.before closed fun _ => caseEnd_closes_nothing
  exact ⟨us, _, by rw [last.unique (delivers_caseEnd d _)], front⟩

/-- A branch more stands between the others and the last line. -/
theorem delivers_caseText {d : Dialect} {selector arm arm' : List Char} {us vs : List Token}
    (first : Delivers d ⟨0, caseHead selector ++ '\n' :: arm⟩ us)
    (closed : ∀ t ∈ us, Lexed.isOpen t.lexeme = false)
    (second : Delivers d (Scanner.behind (arm' ++ '\n' :: caseEnd) ⟨0, caseHead selector⟩) vs) :
    Delivers d (Scanner.start (caseText selector (arm ++ '\n' :: arm')))
      (us ++ vs.map (Token.moved (arm.length + 1))) := by
  have same : Scanner.start (caseText selector (arm ++ '\n' :: arm')) =
      Scanner.feed (arm' ++ '\n' :: caseEnd) ⟨0, caseHead selector ++ '\n' :: arm⟩ := by
    show (⟨0, caseText selector (arm ++ '\n' :: arm')⟩ : Scanner) = _
    rw [caseText, feed, List.append_assoc, List.append_assoc]
    rfl
  have later := second.moved (arm.length + 1)
  have place : (Scanner.behind (arm' ++ '\n' :: caseEnd) ⟨0, caseHead selector⟩).moved (arm.length + 1) =
      Scanner.behind (arm' ++ '\n' :: caseEnd) ⟨0, caseHead selector ++ '\n' :: arm⟩ := by
    simp only [Scanner.behind, Scanner.moved, List.length_append, List.length_cons]
    congr 1
    omega
  rw [same]
  exact first.feed closed (place ▸ later)

/-- The word `CASE` comes first. -/
theorem case_ahead {d : Dialect} {selector arms : List Char} {ts : List Token}
    (whole : Delivers d (Scanner.start (caseText selector arms)) ts) {s : Setting}
    {declared : List String} {fin : Token} :
    (s.ahead (opening declared ts fin).enter 0).lexeme = .keyword .CASE := by
  have first := next_case d (selector ++ '\n' :: "OF".toList ++ '\n' :: (arms ++ '\n' :: caseEnd))
  cases whole with
  | nil last ends =>
    cases first.symm.trans last
    cases ends
  | cons first' goes rest =>
    cases first.symm.trans first'
    show ((opening declared (caseToken :: _) fin).rest.getD 0 s.finish).lexeme = _
    rw [opening_rest, List.filter_cons_of_pos rfl, List.getD_cons_zero]
    rfl

theorem behind_in (selector arms : List Char) :
    (Scanner.behind (arms ++ '\n' :: caseEnd) ⟨0, caseHead selector⟩).In (caseText selector arms) := by
  have text : caseText selector arms = (caseHead selector ++ ['\n']) ++ (arms ++ '\n' :: caseEnd) := by
    rw [caseText, List.append_assoc]
    rfl
  have place : 0 + (caseHead selector).length + 1 = (caseHead selector ++ ['\n']).length := by
    rw [Nat.zero_add, List.length_append]
    rfl
  rw [text]
  constructor
  · show 0 + (caseHead selector).length + 1 ≤ _
    rw [place]
    exact (List.prefix_append _ _).length_le
  · show _ = List.drop (0 + (caseHead selector).length + 1) _
    rw [place, List.drop_left]
    rfl

/-- The tokens behind the first lines of a `CASE` are those of the text from there on. -/
theorem tokensFrom_caseText {d : Dialect} {selector arms : List Char} {us vs : List Token}
    (head : Delivers d ⟨0, caseHead selector⟩ us)
    (whole : Delivers d (Scanner.start (caseText selector arms)) (us ++ vs))
    (behind : Delivers d (Scanner.behind (arms ++ '\n' :: caseEnd) ⟨0, caseHead selector⟩) vs) :
    tokensFrom d (caseText selector arms) (caseHead selector).length = vs.filter isRead := by
  obtain ⟨fin, cut, -⟩ := whole.tokens
  have before (t) (ht : t ∈ us) : ¬ (caseHead selector).length ≤ t.span.start := by
    have place : Scanner.In ⟨0, caseHead selector⟩ (caseHead selector) := ⟨Nat.zero_le _, rfl⟩
    obtain ⟨-, some_char, stop⟩ := head.within place t ht
    omega
  have after (t) (ht : t ∈ vs) : (caseHead selector).length ≤ t.span.start := by
    obtain ⟨start, -⟩ := behind.within (behind_in selector arms) t ht
    replace start : 0 + (caseHead selector).length + 1 ≤ t.span.start := start
    omega
  unfold tokensFrom
  rw [cut]
  dsimp only
  rw [List.dropLast_concat, List.filter_append]
  have none : us.filter (fun t => isRead t && decide ((caseHead selector).length ≤ t.span.start)) = [] :=
    List.filter_eq_nil_iff.2 fun t ht => by
      rw [decide_eq_false (before t ht), Bool.and_false]
      exact Bool.false_ne_true
  rw [none, List.nil_append]
  exact List.filter_congr fun t ht => by rw [decide_eq_true (after t ht), Bool.and_true]

/-- What is read of a `CASE` with one branch. -/
theorem caseText_read {d : Dialect} {selector arm : List Char} {l : Limits} {declared : List String}
    {span : Span} {choice : Expr} {b : CaseBranch}
    (read : (Reading.mk (caseText selector arm) d l).statements declared =
      .ok [.caseOf span choice [b] none]) :
    ∃ us p fin n m, ∃ _ : OneCase (expression n) (statement n)
        (strictSetting ⟨caseText selector arm, d, l⟩ fin)
        (opening declared (us ++ [endCaseToken p, semicolonToken (p + 8)]) fin).enter m choice b,
      m.rest = [] ∧ fin.lexeme.isFinish = true ∧
      Delivers d (Scanner.start (caseText selector arm)) (us ++ [endCaseToken p, semicolonToken (p + 8)]) ∧
      Delivers d ⟨0, caseHead selector ++ '\n' :: arm⟩ us ∧
      ∀ t ∈ us, Lexed.isOpen t.lexeme = false := by
  obtain ⟨ts, fin, m, whole, ends, run, done, -, closed⟩ := Reading.statements_eq_ok read
  obtain ⟨us, p, rfl, front⟩ := tokens_of_caseText whole closed
  obtain ⟨-, n, m', body, rfl⟩ := statement_inside rfl run
  rw [statementBody_case (case_ahead whole)] at body
  obtain ⟨one⟩ := caseStmt_one body
  exact ⟨us, p, fin, n, m', one, done, ends, whole, front,
    fun t ht => closed t (List.mem_append_left _ ht)⟩

/-- A token of a row is told by where it begins. -/
theorem eq_of_row {front front' back back' : List Token} {t u : Token}
    (row : (front ++ t :: back).Pairwise fun t u => t.span.start < u.span.start)
    (same : front ++ t :: back = front' ++ u :: back') (start : u.span.start = t.span.start) :
    u :: back' = t :: back := by
  obtain ⟨-, behind, across⟩ := List.pairwise_append.1 row
  obtain ⟨mid, rfl, parts⟩ | ⟨mid, rfl, parts⟩ := List.append_eq_append_iff.1 same
  · cases mid with
    | nil => exact parts.symm
    | cons v mid =>
      obtain ⟨rfl, rfl⟩ := List.cons.inj parts
      have before := (List.pairwise_cons.1 behind).1 u (List.mem_append_right _ List.mem_cons_self)
      omega
  · cases mid with
    | nil => exact parts
    | cons v mid =>
      obtain ⟨rfl, -⟩ := List.cons.inj parts
      have before := across u (List.mem_append_right _ List.mem_cons_self) t List.mem_cons_self
      omega

/-! ### Two branches -/

section Branches

variable {d : Dialect} {selector arm arm' : List Char} {l l₁ l₂ : Limits} {fin fin₁ fin₂ : Token}

/-- The first branch stands in both texts, and the second behind it in the one with both. -/
theorem common_first (selector arm arm' : List Char) :
    Common (caseText selector arm) (caseText selector (arm ++ '\n' :: arm')) 0 0
      (caseHead selector ++ '\n' :: arm).length := by
  have further : ([] : List Char).length = ([] : List Char).length + 0 := rfl
  have part := common_part (caseHead selector ++ '\n' :: arm) further (.lineFeed caseEnd)
    (.lineFeed (arm' ++ '\n' :: caseEnd))
  have one : caseHead selector ++ '\n' :: arm ++ '\n' :: caseEnd = caseText selector arm := by
    rw [List.append_assoc]
    rfl
  have other : caseHead selector ++ '\n' :: arm ++ '\n' :: (arm' ++ '\n' :: caseEnd) =
      caseText selector (arm ++ '\n' :: arm') := by
    rw [caseText, List.append_assoc, List.append_assoc]
    rfl
  rwa [List.nil_append, one, other, List.length_nil, Nat.zero_add] at part

theorem common_second (selector arm arm' : List Char) :
    Common (caseText selector arm') (caseText selector (arm ++ '\n' :: arm')) (arm.length + 1)
      ((caseHead selector).length + 1) (caseText selector arm').length := by
  have further : (caseHead selector ++ '\n' :: arm ++ ['\n']).length =
      (caseHead selector ++ ['\n']).length + (arm.length + 1) := by
    simp only [List.length_append, List.length_cons, List.length_nil]
    omega
  have part := common_part (arm' ++ '\n' :: caseEnd) further .nil .nil
  have one : caseHead selector ++ ['\n'] ++ (arm' ++ '\n' :: caseEnd) = caseText selector arm' := by
    rw [List.append_assoc]
    rfl
  have other : caseHead selector ++ '\n' :: arm ++ ['\n'] ++ (arm' ++ '\n' :: caseEnd) =
      caseText selector (arm ++ '\n' :: arm') := by
    rw [caseText, List.append_assoc, List.append_assoc, List.append_assoc]
    rfl
  have low : (caseHead selector ++ ['\n']).length = (caseHead selector).length + 1 := List.length_append
  rwa [List.append_nil, List.append_nil, one, other, ← List.length_append, one, low] at part

/-- The first text, and the text with both branches, where the tokens of the second text come next. -/
def besideFirst (d : Dialect) (selector arm arm' : List Char) (l₁ l : Limits) (fin₁ fin : Token) (p : Nat)
    (t : Token) (ts : List Token) (ends : fin₁.lexeme.isFinish = true)
    (bare : t.lexeme.is Mark.semicolon = false) : Transplant :=
  .between ⟨caseText selector arm, d, l₁⟩ ⟨caseText selector (arm ++ '\n' :: arm'), d, l⟩ fin₁ fin
    [endCaseToken p, semicolonToken (p + 8)] ((t :: ts).map (Token.moved (arm.length + 1)))
    (common_first selector arm arm') rfl ends ⟨rfl, bare⟩

/-- The second text, and the text with both branches. -/
def besideSecond (d : Dialect) (selector arm arm' : List Char) (l₂ l : Limits) (fin₂ fin : Token)
    (ends : fin₂.lexeme.isFinish = true) (ends' : fin.lexeme.isFinish = true) : Transplant :=
  .between ⟨caseText selector arm', d, l₂⟩ ⟨caseText selector (arm ++ '\n' :: arm'), d, l⟩ fin₂ fin [] []
    (common_second selector arm arm') rfl ends ⟨finish_bare ends, finish_bare ends'⟩

/-- What was read of the first text, up to the last line. -/
theorem caseText_first {declared : List String} {span : Span} {choice : Expr} {b : CaseBranch}
    (read : (Reading.mk (caseText selector arm) d l).statements declared =
      .ok [.caseOf span choice [b] none]) :
    ∃ ts p fin n m c, ∃ one : OneCase (expression n) (statement n)
        (strictSetting ⟨caseText selector arm, d, l⟩ fin) c m choice b,
      fin.lexeme.isFinish = true ∧ Delivers d ⟨0, caseHead selector ++ '\n' :: arm⟩ ts ∧
      (∀ t ∈ ts, Lexed.isOpen t.lexeme = false) ∧
      c.rest = ts.filter isRead ++ [endCaseToken p, semicolonToken (p + 8)] ∧ c.declared = [declared] ∧
      one.last.rest = [endCaseToken p, semicolonToken (p + 8)] ∧
      ∀ t ∈ (ts.filter isRead).getLast?, closesStatement t.lexeme = true := by
  obtain ⟨ts, p, fin, n, m, one, done, ends, -, front, closed⟩ := caseText_read read
  have rest : (opening declared (ts ++ [endCaseToken p, semicolonToken (p + 8)]) fin).enter.rest =
      ts.filter isRead ++ [endCaseToken p, semicolonToken (p + 8)] := by
    show (opening declared _ fin).rest = _
    rw [opening_rest, List.filter_append]
    rfl
  obtain ⟨filled, closing⟩ := one.filled rfl ends rest rfl done
  exact ⟨ts, p, fin, n, m, _, one, ends, front, closed, rest, rfl, filled, closing⟩

/-- The branch of the second text, which begins behind the first lines. -/
theorem caseText_second {declared : List String} {span : Span} {choice : Expr} {b : CaseBranch}
    (closed : leavesNothingOpen d (caseHead selector) = true)
    (read : (Reading.mk (caseText selector arm) d l).statements declared =
      .ok [.caseOf span choice [b] none]) {t : Token} {ts : List Token}
    (behind : tokensFrom d (caseText selector arm) (caseHead selector).length = t :: ts)
    (start : b.span.start = t.span.start) :
    ∃ vs fin n m c, ∃ two : OneCase (expression n) (statement n)
        (strictSetting ⟨caseText selector arm, d, l⟩ fin) c m choice b,
      m.rest = [] ∧ fin.lexeme.isFinish = true ∧
      Delivers d (Scanner.behind (arm ++ '\n' :: caseEnd) ⟨0, caseHead selector⟩) vs ∧
      vs.filter isRead = t :: ts ∧ two.head.rest = t :: ts ∧ c.declared = [declared] ∧
      1 ≤ two.last.rest.length ∧ ∀ u ∈ (t :: ts).getLast?, closesStatement u.lexeme = true := by
  obtain ⟨us, head, closedHead⟩ := delivers_of_leavesNothingOpen closed
  obtain ⟨front, p, fin, n, m, two, done, ends, whole, -⟩ := caseText_read read
  obtain ⟨vs, split, later⟩ := head.after closedHead whole
  rw [tokensFrom_caseText head (split ▸ whole) later] at behind
  have rest : (opening declared (front ++ [endCaseToken p, semicolonToken (p + 8)]) fin).enter.rest =
      front.filter isRead ++ [endCaseToken p, semicolonToken (p + 8)] := by
    show (opening declared _ fin).rest = _
    rw [opening_rest, List.filter_append]
    rfl
  -- The tokens of the whole text are those of the first lines and those of the branch.
  have parts : front.filter isRead ++ [endCaseToken p, semicolonToken (p + 8)] =
      us.filter isRead ++ t :: ts := by
    have filtered := congrArg (List.filter isRead) split
    rwa [List.filter_append, List.filter_append, behind] at filtered
  obtain ⟨filled, -⟩ := two.filled rfl ends rest rfl done
  refine ⟨vs, fin, n, m, _, two, done, ends, later, behind, ?_, rfl,
    by rw [filled]; exact Nat.le_succ 1, fun u hu => ?_⟩
  · obtain ⟨passed, before, -⟩ := two.readsHeader rfl ends
    obtain ⟨u, back, begins, place⟩ := two.head_rest ends
    -- The branch begins with the token at its place, and no two tokens start at one place.
    have row := (whole.row (Scanner.start_in _)).filter isRead
    rw [List.filter_append] at row
    replace row : (us.filter isRead ++ t :: ts).Pairwise fun t u => t.span.start < u.span.start :=
      parts ▸ row
    rw [rest, parts, begins] at before
    rw [begins, eq_of_row row before (place.symm.trans start)]
  · have last := congrArg List.getLast? parts
    rw [List.getLast?_append, List.getLast?_append, hu] at last
    cases last
    rfl

section Joined

variable {declared : List String} {p : Nat} {t : Token} {ts ts₁ vs : List Token} {c₁ head last : Cursor}

/-- Where both texts begin, they stand at the same place. -/
theorem besideFirst_opening (front : Delivers d ⟨0, caseHead selector ++ '\n' :: arm⟩ ts₁)
    (second : vs.filter isRead = t :: ts) (ends : fin₁.lexeme.isFinish = true)
    (bare : t.lexeme.is Mark.semicolon = false)
    (rest : c₁.rest = ts₁.filter isRead ++ [endCaseToken p, semicolonToken (p + 8)])
    (names : c₁.declared = [declared])
    (closing : ∀ t ∈ (ts₁.filter isRead).getLast?, closesStatement t.lexeme = true) :
    Beside (besideFirst d selector arm arm' l₁ l fin₁ fin p t ts ends bare) true c₁
      (opening declared (ts₁ ++ vs.map (Token.moved (arm.length + 1))) fin).enter := by
  refine ⟨⟨ts₁.filter isRead, rest, ?_, fun u hu => ?_, closing⟩, fun name => by rw [names]; rfl, nofun⟩
  · show (opening declared _ fin).rest = _
    rw [opening_rest, List.filter_append, filter_isRead_moved, second]
    exact congrArg (· ++ _) (List.map_id _).symm
  · have place : Scanner.In ⟨0, caseHead selector ++ '\n' :: arm⟩ (caseHead selector ++ '\n' :: arm) :=
      ⟨Nat.zero_le _, rfl⟩
    obtain ⟨low, -, high⟩ := front.within place u (List.mem_filter.1 hu).1
    exact ⟨low, high⟩

/-- Where the first text comes to its last line, the text with both branches comes to the second. -/
theorem besideFirst_joined
    (later : Delivers d (Scanner.behind (arm' ++ '\n' :: caseEnd) ⟨0, caseHead selector⟩) vs)
    (second : vs.filter isRead = t :: ts) (ends₁ : fin₁.lexeme.isFinish = true)
    (bare : t.lexeme.is Mark.semicolon = false) (ends₂ : fin₂.lexeme.isFinish = true)
    (ends : fin.lexeme.isFinish = true)
    (filled : last.rest = [endCaseToken p, semicolonToken (p + 8)]) (begins : head.rest = t :: ts)
    (names : head.declared = last.declared)
    (closing : ∀ u ∈ (t :: ts).getLast?, closesStatement u.lexeme = true) {m : Cursor}
    (side : Beside (besideFirst d selector arm arm' l₁ l fin₁ fin p t ts ends₁ bare) false last m) :
    Beside (besideSecond d selector arm arm' l₂ l fin₂ fin ends₂ ends) true head m := by
  obtain ⟨-, rest⟩ := side.behind (by rw [filled]; exact Nat.lt_irrefl _)
  refine ⟨⟨t :: ts, begins.trans (List.append_nil _).symm, rest.trans (List.append_nil _).symm,
    fun u hu => ?_, closing⟩, fun name => by rw [side.declared, names], nofun⟩
  rw [← second] at hu
  obtain ⟨low, -, high⟩ := later.within (behind_in selector arm') u (List.mem_filter.1 hu).1
  replace low : 0 + (caseHead selector).length + 1 ≤ u.span.start := low
  exact ⟨by rwa [Nat.zero_add] at low, high⟩

end Joined

/-- Two texts of a `CASE` about the same selector, each with one branch and no `ELSE`, may be put
together: the branches come one after the other.  The first lines must be closed, the branch of the second
text must begin with the first token behind them, and this token must begin a label that ends the
statements before it.  Only a limit can come in between. -/
theorem caseText_branches {d : Dialect} {selector labels body labels' body' : List Char}
    {declared : List String} {l₁ l₂ : Limits} {span span' : Span} {choice choice' : Expr}
    {b b' : CaseBranch} (l : Limits) (closed : leavesNothingOpen d (caseHead selector) = true)
    (first : (Reading.mk (caseText selector (caseArm labels body)) d l₁).statements declared =
      .ok [.caseOf span choice [b] none])
    (second : (Reading.mk (caseText selector (caseArm labels' body')) d l₂).statements declared =
      .ok [.caseOf span' choice' [b'] none])
    (behind : ∃ t ts, tokensFrom d (caseText selector (caseArm labels' body'))
        (caseHead selector).length = t :: ts ∧ b'.span.start = t.span.start ∧
      beginsCaseLabel d ((t :: ts).map Token.lexeme) = true) :
    (∃ span, (Reading.mk (caseText selector (caseArm labels body ++ '\n' :: caseArm labels' body')) d
        l).statements declared =
      .ok [.caseOf span choice [b, b'.moved ((caseArm labels body).length + 1)] none]) ∨
    ∃ e, (Reading.mk (caseText selector (caseArm labels body ++ '\n' :: caseArm labels' body')) d
        l).statements declared = .error (.limit e) := by
  generalize caseArm labels body = arm at *
  generalize caseArm labels' body' = arm' at *
  obtain ⟨t, ts, behind, start, label⟩ := behind
  obtain ⟨ts₁, p, fin₁, n₁, m₁, c₁, one, ends₁, front₁, closed₁, rest₁, names₁, filled, closing₁⟩ :=
    caseText_first first
  obtain ⟨vs, fin₂, n₂, m₂, c₂, two, done₂, ends₂, later, read₂, head₂, names₂, left₂, closing₂⟩ :=
    caseText_second closed second behind start
  have whole := delivers_caseText front₁ closed₁ later
  suffices list : ∀ fin, fin.lexeme.isFinish = true → UnlessLimited (fun ss d' => (∃ span, ss =
      [.caseOf span choice [b, b'.moved (arm.length + 1)] none]) ∧ d'.rest = [])
      (statementList (statement l.maxDepth)
        (strictSetting ⟨caseText selector (arm ++ '\n' :: arm'), d, l⟩ fin)
        (opening declared (ts₁ ++ vs.map (Token.moved (arm.length + 1))) fin)) by
    obtain ⟨_, ⟨span, rfl⟩, given⟩ | limited := Reading.statements_of_list whole list
    · exact .inl ⟨span, given⟩
    · exact .inr limited
  intro fin ends
  -- Behind the first branch comes the label of the second, which is no semicolon.
  have lexemes : ((t :: ts).map (Token.moved (arm.length + 1))).map Token.lexeme =
      (t :: ts).map Token.lexeme := by
    rw [List.map_map]
    rfl
  have bare : t.lexeme.is Mark.semicolon = false := by
    cases semicolon : t.lexeme.is Mark.semicolon with
    | false => rfl
    | true =>
      rw [List.map_cons, Terminal.is_lexeme semicolon] at label
      cases label
  have names : two.head.declared = one.last.declared := by
    rw [one.names.2, two.names.1, names₁, names₂]
  have read (n : Nat) : UnlessLimited (fun a d' => d'.rest = [] ∧ ∃ span, a = .caseOf span choice
      [b, b'.moved (arm.length + 1)] none)
      (caseStmt (expression n) (statement n)
        (strictSetting ⟨caseText selector (arm ++ '\n' :: arm'), d, l⟩ fin)
        (opening declared (ts₁ ++ vs.map (Token.moved (arm.length + 1))) fin).enter) := by
    have given := caseStmt_follows (x := besideFirst d selector arm arm' l₁ l fin₁ fin p t ts ends₁ bare)
      (y := besideSecond d selector arm arm' l₂ l fin₂ fin ends₂ ends) rfl one two filled
      (fun c rest => .inl ?_) (fun c rest => .inr ?_) left₂ done₂
      (fun m side => besideFirst_joined later read₂ ends₁ bare ends₂ ends filled head₂ names closing₂ side)
      (besideFirst_opening front₁ read₂ ends₁ bare rest₁ names₁ closing₁) n
    · refine given.mono ?_
      rintro a d' ⟨rest, span, same⟩
      replace same : a = .caseOf span (choice.moved 0) [b.moved 0, b'.moved (arm.length + 1)] none := same
      rw [Expr.moved_zero, CaseBranch.moved_zero] at same
      exact ⟨rest, span, same⟩
    · rw [Setting.ahead, rest]
      rfl
    · rw [rest]
      exact (congrArg (beginsCaseLabel d) lexemes).trans label
  have ahead : ((strictSetting ⟨caseText selector (arm ++ '\n' :: arm'), d, l⟩ fin).ahead
      (opening declared (ts₁ ++ vs.map (Token.moved (arm.length + 1))) fin).enter 0).lexeme =
      .keyword .CASE := case_ahead whole
  refine (UnlessLimited.oneStatement (P := fun a d' => d'.rest = [] ∧ ∃ span, a = .caseOf span choice
    [b, b'.moved (arm.length + 1)] none) ?_ (fun n => ?_) (fun _ _ given => given) ?_).mono ?_
  · exact congrArg endsStatements ahead
  · rw [statementBody_case ahead]
    exact read n
  · rintro _ m ⟨rest, -⟩
    rw [Setting.ahead, rest]
    exact endsStatements_of_finish ends
  · rintro _ m ⟨_, rfl, rest, span, rfl⟩
    exact ⟨⟨span, rfl⟩, rest⟩

/-- The selector and the branch of a text that is one `CASE` with one branch and no `ELSE`. -/
def oneCase? (r : Reading) : Option (Span × Expr × CaseBranch) :=
  match r.statements [] with
  | .ok [.caseOf span choice [b] none] => some (span, choice, b)
  | _ => none

theorem statements_of_oneCase? {r : Reading} {span : Span} {choice : Expr} {b : CaseBranch}
    (h : oneCase? r = some (span, choice, b)) : r.statements [] = .ok [.caseOf span choice [b] none] := by
  unfold oneCase? at h
  split at h
  · next read =>
    cases h
    exact read
  · cases h

/-- A branch with one statement is read. -/
theorem caseText_one : ∃ span choice b,
    (Reading.mk (caseText ['s'] (caseArm ['1'] "x := 1;".toList)) .generic {}).statements [] =
      .ok [.caseOf span choice [b] none] ∧ b.body.isEmpty = false := by
  have read : (oneCase? ⟨caseText ['s'] (caseArm ['1'] "x := 1;".toList), .generic, {}⟩).map
    (·.2.2.body.isEmpty) = some false := by decide +kernel
  obtain ⟨⟨span, choice, b⟩, one, some_body⟩ := Option.map_eq_some_iff.1 read
  exact ⟨span, choice, b, statements_of_oneCase? one, some_body⟩

/-- Two branches with a number for a label. -/
theorem caseText_branches_numbers : ∃ span span' choice choice' b b',
    leavesNothingOpen .generic (caseHead ['s']) = true ∧
    (Reading.mk (caseText ['s'] (caseArm ['1'] "x := 1;".toList)) .generic {}).statements [] =
      .ok [.caseOf span choice [b] none] ∧
    (Reading.mk (caseText ['s'] (caseArm ['2'] "y := 2;".toList)) .generic {}).statements [] =
      .ok [.caseOf span' choice' [b'] none] ∧
    (∃ t ts, tokensFrom .generic (caseText ['s'] (caseArm ['2'] "y := 2;".toList))
        (caseHead ['s']).length = t :: ts ∧ b'.span.start = t.span.start ∧
      beginsCaseLabel .generic ((t :: ts).map Token.lexeme) = true) ∧
    ((∃ span, (Reading.mk (caseText ['s'] (caseArm ['1'] "x := 1;".toList ++
        '\n' :: caseArm ['2'] "y := 2;".toList)) .generic {}).statements [] =
      .ok [.caseOf span choice [b, b'.moved 12] none]) ∨
    ∃ e, (Reading.mk (caseText ['s'] (caseArm ['1'] "x := 1;".toList ++
        '\n' :: caseArm ['2'] "y := 2;".toList)) .generic {}).statements [] = .error (.limit e)) := by
  have closed : leavesNothingOpen .generic (caseHead ['s']) = true := rfl
  obtain ⟨span, choice, b, first, -⟩ := caseText_one
  have second : (oneCase? ⟨caseText ['s'] (caseArm ['2'] "y := 2;".toList), .generic, {}⟩).map
    (·.2.2.span.start) = some 10 := by decide +kernel
  obtain ⟨⟨span', choice', b'⟩, second, start⟩ := Option.map_eq_some_iff.1 second
  have behind : ∃ t ts, tokensFrom .generic (caseText ['s'] (caseArm ['2'] "y := 2;".toList))
        (caseHead ['s']).length = t :: ts ∧ b'.span.start = t.span.start ∧
      beginsCaseLabel .generic ((t :: ts).map Token.lexeme) = true :=
    ⟨_, _, rfl, start, rfl⟩
  have second := statements_of_oneCase? second
  exact ⟨span, span', choice, choice', b, b', closed, first, second, behind,
    caseText_branches {} closed first second behind⟩

/-- Not every label is told from a statement: behind the statements of a branch, `TRUE` is no label. -/
theorem caseText_unknown :
    ¬∀ (selector labels body labels' body' : List Char) (span span' : Span) (choice choice' : Expr)
        (b b' : CaseBranch), b.body ≠ [] → b'.body ≠ [] →
      (Reading.mk (caseText selector (caseArm labels body)) .generic {}).statements [] =
        .ok [.caseOf span choice [b] none] →
      (Reading.mk (caseText selector (caseArm labels' body')) .generic {}).statements [] =
        .ok [.caseOf span' choice' [b'] none] →
      ∃ span choice b b', (Reading.mk (caseText selector (caseArm labels body ++
        '\n' :: caseArm labels' body')) .generic {}).statements [] =
          .ok [.caseOf span choice [b, b'] none] := by
  intro free
  obtain ⟨span, choice, b, first, some_body⟩ := caseText_one
  have second : (oneCase? ⟨caseText ['s'] (caseArm "TRUE".toList "y := 2;".toList), .generic, {}⟩).map
    (·.2.2.body.isEmpty) = some false := by decide +kernel
  have refused : ((Reading.mk (caseText ['s'] (caseArm ['1'] "x := 1;".toList ++
    '\n' :: caseArm "TRUE".toList "y := 2;".toList)) .generic {}).statements []).toOption.isSome =
      false := by decide +kernel
  obtain ⟨⟨span', choice', b'⟩, second, some_body'⟩ := Option.map_eq_some_iff.1 second
  obtain ⟨_, _, _, _, accepted⟩ := free _ _ _ _ _ span span' choice choice' b b'
    (List.isEmpty_eq_false_iff.1 some_body) (List.isEmpty_eq_false_iff.1 some_body')
    first (statements_of_oneCase? second)
  rw [accepted] at refused
  cases refused

end Branches

end Plc
