/-
A line feed between two texts.

A line feed ends every token that is closed.  So what stands before it is cut into the tokens that it is
cut into alone, and what comes behind is read like a text of its own, further on.  Only a comment, a
string, a quoted name or a pragma that is never closed goes on behind the line feed, and to the end of
the text if nothing there closes it.

* `Scanner.next_moved`, `Scans.moved` — the tokens of a text further on;
* `Gap.skip_feed`, `Lexed.read_feed` — a gap and a token before a line feed;
* `Scanner.Delivers` — the tokens of a text, up to its end;
* `Scanner.Delivers.feed` — the tokens before a line feed, and then those behind;
* `Scanner.Delivers.before` — nothing was open at a line feed behind which nothing can be closed.
-/
import Plc.Proofs.Moved.Tree
import Plc.Proofs.Token.Separated

namespace Plc

open Text

/-! ### A text further on -/

namespace Gap

/-- The mode, where a comment was opened further on. -/
def Mode.moved (k : Nat) : Mode → Mode
  | .blank => .blank
  | .line => .line
  | .block start => .block (start + k)
  | .nested start depth => .nested (start + k) depth

/-- The end of the gap further on. -/
def moved (k : Nat) : Gap → Gap
  | .clear pos rest => .clear (pos + k) rest
  | .unterminated start stop opening => .unterminated (start + k) (stop + k) opening

theorem skip_moved (k : Nat) (mode : Mode) (pos : Nat) (cs : List Char) :
    skip (mode.moved k) (pos + k) cs = (skip mode pos cs).moved k := by
  -- Induction along the reading; each case is the same step from a place further on.
  fun_induction skip mode pos cs with
  | case1 pos cs ih | case2 pos cs ih | case3 pos cs ih =>
    rw [← ih, Nat.add_right_comm]
    rfl
  | case4 pos c cs _ _ _ blank ih =>
    rw [← ih, Nat.add_right_comm]
    exact skip_blank blank _ _
  -- What opens no comment here opens none there.
  | case5 pos c cs slash star paren blank =>
    refine skip_clear (Bool.eq_false_iff.2 blank) (fun hc => ⟨fun he => ?_, fun he => ?_⟩)
      (fun hc he => ?_) _
    · obtain ⟨tail, rfl⟩ := List.head?_eq_some_iff.1 he
      exact slash tail hc rfl
    · obtain ⟨tail, rfl⟩ := List.head?_eq_some_iff.1 he
      exact star tail hc rfl
    · obtain ⟨tail, rfl⟩ := List.head?_eq_some_iff.1 he
      exact paren tail hc rfl
  | case6 | case8 | case11 | case15 => rfl
  -- The next mode depends on the character, and not on the place.
  | case7 pos c cs ih =>
    rw [← ih, Nat.add_right_comm]
    show skip (if c = '\n' then .blank else .line) _ cs = _
    split
    · rfl
    · rfl
  | case9 start pos cs ih =>
    rw [← ih, Nat.add_right_comm]
    rfl
  | case10 start pos c cs other ih =>
    rw [← ih, Nat.add_right_comm]
    exact skip_block_other other _ _
  | case12 start depth pos cs ih =>
    rw [← ih, Nat.add_right_comm]
    rfl
  | case13 start depth pos cs ih =>
    rw [← ih, Nat.add_right_comm]
    cases depth with
    | zero | succ depth => rfl
  | case14 start depth pos c cs opens closes ih =>
    rw [← ih, Nat.add_right_comm]
    exact skip_nested_other opens closes _ _ _

end Gap

/-- The scanner further on. -/
def Scanner.moved (k : Nat) (s : Scanner) : Scanner := ⟨s.pos + k, s.rest⟩

/-- The next token of a text is the same further on. -/
theorem Scanner.next_moved (d : Dialect) (k : Nat) (s : Scanner) :
    (s.moved k).next d = (s.next d).map fun (t, m) => (t.moved k, m.moved k) := by
  unfold next
  rw [show Gap.skip .blank (s.moved k).pos (s.moved k).rest = _ from
    Gap.skip_moved k .blank s.pos s.rest]
  -- The end of a gap is moved with it, and what is read behind it does not know its place.
  cases Gap.skip .blank s.pos s.rest with
  | unterminated start stop opening =>
    refine congrArg Except.ok (Prod.ext ?_ rfl)
    simp only [Token.moved, Span.moved, Nat.add_max_add_right]
  | clear pos rest =>
    cases rest with
    | nil => rfl
    | cons c cs =>
      simp only [Gap.moved]
      cases Lexed.read d c cs with
      | error fault => rfl
      | ok lexed =>
        simp only [Except.map, Token.moved, Span.moved, Scanner.moved, Nat.add_right_comm]

/-- The tokens of a text are the same further on. -/
theorem Scans.moved {d : Dialect} {s s' : Scanner} {ts : List Token} (h : Scans d s ts s') (k : Nat) :
    Scans d (s.moved k) (ts.map (Token.moved k)) (s'.moved k) := by
  induction h with
  | nil s => exact .nil _
  | @cons s m s' t ts first goes rest ih =>
    have moved : (s.moved k).next d = .ok (t.moved k, m.moved k) := by
      rw [Scanner.next_moved, first]
      rfl
    exact .cons moved goes ih

/-! ### Gaps before a line feed -/

namespace Gap

/-- The gap where the text before the line feed ended goes on behind it. -/
def feed (tail : List Char) : Gap → Gap
  | .clear pos [] => skip .blank (pos + 1) tail
  | .clear pos (c :: cs) => .clear pos (c :: (cs ++ '\n' :: tail))
  | .unterminated start stop opening => .unterminated start (stop + 1 + tail.length) opening

theorem skip_block_open {text : List Char} (never : '*' ∉ text) (start q : Nat) :
    skip (.block start) q text = .unterminated start (q + text.length) "/*" := by
  induction text generalizing q with
  | nil => rfl
  | cons c text ih =>
    obtain ⟨other, never⟩ := not_or.1 (mt List.mem_cons.2 never)
    rw [skip_block_other fun _ hc _ => other hc.symm, ih never, List.length_cons,
      Nat.add_right_comm, Nat.add_assoc]

theorem skip_nested_open {text : List Char} (never : '*' ∉ text) (start depth q : Nat) :
    skip (.nested start depth) q text = .unterminated start (q + text.length) "(*" := by
  induction text generalizing q with
  | nil => rfl
  | cons c text ih =>
    obtain ⟨other, later⟩ := not_or.1 (mt List.mem_cons.2 never)
    have opens : ∀ more, c = '(' → text = '*' :: more → False := by
      rintro more - rfl
      exact later List.mem_cons_self
    rw [skip_nested_other opens (fun _ hc _ => other hc.symm), ih later, List.length_cons,
      Nat.add_right_comm, Nat.add_assoc]

/-- A gap goes on behind a line feed.  A comment that is open there must not be closed behind it. -/
theorem skip_feed {tail : List Char} {mode : Mode} {pos : Nat} {cs : List Char}
    (never : (∀ start stop opening, skip mode pos cs ≠ .unterminated start stop opening) ∨ '*' ∉ tail) :
    skip mode pos (cs ++ '\n' :: tail) = (skip mode pos cs).feed tail := by
  -- A line feed is no part of what opens or closes a comment.
  have next {cs : List Char} {e : Char} (other : e ≠ '\n')
      (he : (cs ++ '\n' :: tail).head? = some e) : ∃ more, cs = e :: more := by
    cases cs with
    | nil => exact absurd (Option.some.inj he).symm other
    | cons c cs =>
      cases he
      exact ⟨cs, rfl⟩
  have starts {cs more : List Char} {e : Char} (other : e ≠ '\n')
      (same : cs ++ '\n' :: tail = e :: more) : ∃ more, cs = e :: more :=
    next other (by rw [same]; rfl)
  fun_induction skip mode pos cs with
  | case1 pos cs ih | case2 pos cs ih | case3 pos cs ih =>
    rw [← ih never]
    rfl
  | case4 pos c cs _ _ _ blank ih =>
    rw [← ih never]
    exact skip_blank blank _ _
  | case5 pos c cs slash star paren blank =>
    refine skip_clear (Bool.eq_false_iff.2 blank) (fun hc => ⟨fun he => ?_, fun he => ?_⟩)
      (fun hc he => ?_) _
    · obtain ⟨more, rfl⟩ := next (by decide) he
      exact slash more hc rfl
    · obtain ⟨more, rfl⟩ := next (by decide) he
      exact star more hc rfl
    · obtain ⟨more, rfl⟩ := next (by decide) he
      exact paren more hc rfl
  | case6 pos => exact skip_blank rfl pos tail
  | case7 pos c cs ih =>
    rw [← ih never]
    rfl
  | case8 pos => rfl
  | case9 start pos cs ih =>
    rw [← ih never]
    rfl
  | case10 start pos c cs other ih =>
    rw [← ih never]
    refine skip_block_other (fun more hc same => ?_) _ _
    obtain ⟨more, rfl⟩ := starts (by decide) same
    exact other more hc rfl
  | case11 start pos =>
    obtain closed | never := never
    · exact absurd rfl (closed _ _ _)
    · rw [List.nil_append, skip_block_open (by simpa using never), List.length_cons, feed]
      congr 1
      omega
  | case12 start depth pos cs ih =>
    rw [← ih never]
    rfl
  | case13 start depth pos cs ih =>
    rw [← ih never]
    cases depth with
    | zero | succ depth => rfl
  | case14 start depth pos c cs opens closes ih =>
    rw [← ih never]
    refine skip_nested_other (fun more hc same => ?_) (fun more hc same => ?_) _ _ _
    · obtain ⟨more, rfl⟩ := starts (by decide) same
      exact opens more hc rfl
    · obtain ⟨more, rfl⟩ := starts (by decide) same
      exact closes more hc rfl
  | case15 start depth pos =>
    obtain closed | never := never
    · exact absurd rfl (closed _ _ _)
    · rw [List.nil_append, skip_nested_open (by simpa using never), List.length_cons, feed]
      congr 1
      omega

end Gap

/-! ### Tokens before a line feed -/

namespace Lexed

variable {d : Dialect} {c : Char} {cs tail : List Char}

theorem ends_feed (tail : List Char) : Ends ('\n' :: tail) := by
  refine ends_of_blank fun c hc => ?_
  cases hc
  rfl

/-- A closed token ends before a line feed. -/
theorem read_feed {x : Lexed} (hr : read d c cs = .ok x) (closed : isOpen x.lexeme = false)
    (tail : List Char) : read d c (cs ++ '\n' :: tail) = .ok (x.followedBy ('\n' :: tail)) := by
  have ends := ends_feed tail
  refine read_append d hr closed ends.apart (fun _ => ends) fun same => ?_
  rw [same]
  refine mark_append_rest d (fun e he => ?_) c cs
  cases he
  exact not_blank_of_marks d rfl

/-- The characters that can close what is open. -/
def closingChars : List Char := ['*', '\'', '"', '\x7d']

/-- The closing quote comes last. -/
theorem stringBody_last {quote : Char} {skip : Nat} {cs text value rest : List Char}
    (h : stringBody quote skip cs = some (text, value, rest)) : text.getLast? = some quote := by
  have longer {c : Char} {text : List Char} (last : text.getLast? = some quote) :
      (c :: text).getLast? = some quote := by
    rw [List.getLast?_cons, last]
    rfl
  -- Induction along the text, where the last character stays the last one of what is longer.
  induction cs generalizing skip text value with
  | nil => cases skip <;> cases h
  | cons c cs ih =>
    cases skip with
    | succ skip =>
      rw [stringBody, Option.map_eq_some_iff] at h
      obtain ⟨⟨text, value, rest⟩, inner, same⟩ := h
      cases same
      exact longer (ih inner)
    | zero =>
      rw [stringBody] at h
      split at h
      · next closes =>
        cases h
        unfold unit? at closes
        split at closes
        · next quoted => rw [quoted]; rfl
        · split at closes
          · split at closes <;> cases closes
          · cases closes
      · rw [Option.map_eq_some_iff] at h
        obtain ⟨⟨text, value, rest⟩, inner, same⟩ := h
        cases same
        exact longer (ih inner)

/-- A string that is not closed before a line feed is closed by a quote behind it. -/
theorem stringBody_open {quote : Char} (hq : isHexDigit quote = false) (other : quote ≠ '\n')
    (before : stringBody quote 0 cs = none) (never : quote ∉ tail) :
    stringBody quote 0 (cs ++ '\n' :: tail) = none := by
  cases closes : stringBody quote 0 (cs ++ '\n' :: tail) with
  | none => rfl
  | some found =>
    obtain ⟨text, value, rest⟩ := found
    -- The closing quote stands before the line feed, and closes the string there already.
    obtain ⟨more, rfl, ends⟩ : ∃ more, cs = text ++ more ∧ rest = more ++ '\n' :: tail := by
      obtain before | ⟨more, ends, behind⟩ := List.append_eq_append_iff.1 (stringBody_append closes)
      · exact before
      · have last := stringBody_last closes
        rcases List.eq_nil_or_concat more with rfl | ⟨front, e, rfl⟩
        · exact ⟨[], by rw [ends, List.append_nil, List.append_nil], behind.symm⟩
        · rw [ends, List.concat_eq_append, ← List.append_assoc, List.getLast?_concat] at last
          obtain rfl := Option.some.inj last
          have inside : e ∈ '\n' :: tail := by
            rw [behind, List.concat_eq_append]
            exact List.mem_append_left _ (List.mem_append_right _ List.mem_cons_self)
          exact absurd inside (not_or.2 ⟨other, never⟩ ∘ List.mem_cons.1)
    have stops : ∀ c ∈ more.head?, c ≠ quote := by
      intro c hc
      refine (stringBody_stops closes).2 c ?_
      obtain ⟨tail', rfl⟩ := List.head?_eq_some_iff.1 hc
      rw [ends]
      rfl
    have again := stringBody_append_rest hq stops (stringBody_text hq closes)
    rw [before] at again
    cases again

/-- A quoted name or a pragma that is not closed before a line feed is closed behind it or never. -/
theorem upTo?_open {close : Char} (other : close ≠ '\n') (before : upTo? close cs = none)
    (never : close ∉ tail) : upTo? close (cs ++ '\n' :: tail) = none := by
  -- No character in front closes it, the line feed does not, and none behind it does.
  have all : ∀ e ∈ cs, (e != close) = true := by
    unfold upTo? at before
    split at before
    · cases before
    · next none => exact List.dropWhile_eq_nil_iff.1 none
  have none : (cs ++ '\n' :: tail).dropWhile (· != close) = [] := by
    refine List.dropWhile_eq_nil_iff.2 fun e he => ?_
    obtain he | he := List.mem_append.1 he
    · exact all e he
    · refine bne_iff_ne.2 ?_
      rintro rfl
      exact (not_or.2 ⟨other, never⟩ ∘ List.mem_cons.1) he
  unfold upTo?
  rw [none]

theorem stringLiteral_rest {quote : Char} (before : isOpen (stringLiteral quote cs).lexeme = true) :
    (stringLiteral quote cs).rest = [] := by
  unfold stringLiteral at before ⊢
  cases hs : stringBody quote 0 cs with
  | none => rfl
  | some found =>
    rw [hs] at before
    dsimp only at before
    split at before <;> cases before

/-- A string stays open behind a line feed. -/
theorem stringLiteral_open {quote : Char} (hq : isHexDigit quote = false) (other : quote ≠ '\n')
    (before : isOpen (stringLiteral quote cs).lexeme = true) (never : quote ∉ tail) :
    isOpen (stringLiteral quote (cs ++ '\n' :: tail)).lexeme = true := by
  unfold stringLiteral at before ⊢
  cases hs : stringBody quote 0 cs with
  | none =>
    rw [stringBody_open hq other hs never]
    rfl
  | some found =>
    rw [hs] at before
    dsimp only at before
    split at before <;> cases before

/-- What is open has taken the rest of the text.  It stays open behind a line feed, if nothing there can
close it. -/
theorem read_open {x : Lexed} (hr : read d c cs = .ok x) (before : isOpen x.lexeme = true) :
    x.rest = [] ∧ ∀ tail, (∀ e ∈ closingChars, e ∉ tail) →
      ∃ y, read d c (cs ++ '\n' :: tail) = .ok y ∧ isOpen y.lexeme = true := by
  have whole {l : Lexeme} (h : IsWhole l) (still : isOpen l = true) : False := by
    rw [h.2] at still
    cases still
  -- The cases are those of the reading. Only strings, quoted names and pragmas can be open; a token
  -- of any other kind is whole.
  unfold read at *
  by_cases name : isNameStart c = true
  · rw [if_pos name] at hr
    cases hr
    exact (whole (word_whole d _) before).elim
  simp only [if_neg name] at hr ⊢
  by_cases digit : isAsciiDigit c = true
  · rw [if_pos digit] at hr
    exact (whole (number_whole hr) before).elim
  simp only [if_neg digit] at hr ⊢
  by_cases narrow : c = '\''
  · subst narrow
    simp only [if_pos] at hr ⊢
    cases hr
    refine ⟨stringLiteral_rest before, fun tail never => ⟨_, rfl, ?_⟩⟩
    exact stringLiteral_open (by decide) (by decide) before (never _ (by decide))
  simp only [if_neg narrow] at hr ⊢
  by_cases wide : c = '"'
  · subst wide
    simp only [if_pos] at hr ⊢
    by_cases quoted : d.quotedNames = true
    · simp only [if_pos quoted] at hr ⊢
      cases hr
      unfold quotedName at before ⊢
      cases hs : upTo? '"' cs with
      | none =>
        refine ⟨rfl, fun tail never => ⟨_, rfl, ?_⟩⟩
        rw [upTo?_open (by decide) hs (never _ (by decide))]
        rfl
      | some found =>
        rw [hs] at before
        cases before
    · simp only [if_neg quoted] at hr ⊢
      cases hr
      refine ⟨stringLiteral_rest before, fun tail never => ⟨_, rfl, ?_⟩⟩
      exact stringLiteral_open (by decide) (by decide) before (never _ (by decide))
  simp only [if_neg wide] at hr ⊢
  by_cases percent : c = '%'
  · rw [if_pos percent] at hr
    exact (whole (address_whole hr) before).elim
  simp only [if_neg percent] at hr ⊢
  by_cases brace : (decide (c = '\x7b') && d.pragmas) = true
  · simp only [if_pos brace] at hr ⊢
    cases hr
    unfold pragma at before ⊢
    cases hs : upTo? '\x7d' cs with
    | none =>
      refine ⟨rfl, fun tail never => ⟨_, rfl, ?_⟩⟩
      rw [upTo?_open (by decide) hs (never _ (by decide))]
      rfl
    | some found =>
      rw [hs] at before
      cases before
  · rw [if_neg brace] at hr
    cases hr
    exact (whole (mark_whole d c cs) before).elim

/-- A fault before a line feed stays. -/
theorem read_fault {f : Fault} (hr : read d c cs = .error f) (tail : List Char) :
    read d c (cs ++ '\n' :: tail) = .error f := by
  have apart := (ends_feed tail).apart
  -- Only numbers and addresses have faults, and these end before a line feed.
  unfold read at hr ⊢
  split at hr
  · cases hr
  · next name =>
    rw [if_neg name]
    split at hr
    · next digit =>
      have longer := number_append_rest apart (c :: cs)
      rw [hr] at longer
      rw [if_pos digit]
      exact longer
    · next digit =>
      rw [if_neg digit]
      split at hr
      · cases hr
      · next narrow =>
        rw [if_neg narrow]
        split at hr
        · cases hr
        · next wide =>
          rw [if_neg wide]
          split at hr
          · next percent =>
            have longer := address_append_rest apart cs
            rw [hr] at longer
            rw [if_pos percent]
            exact longer
          · split at hr <;> cases hr

end Lexed

namespace Scanner

/-- The scanner, where a line feed and more come behind the text. -/
def feed (tail : List Char) (s : Scanner) : Scanner := ⟨s.pos, s.rest ++ '\n' :: tail⟩

/-- The scanner behind this line feed. -/
def behind (tail : List Char) (s : Scanner) : Scanner := ⟨s.pos + s.rest.length + 1, tail⟩

variable {d : Dialect} {s s' : Scanner} {t : Token} {tail : List Char}

theorem skip_feed {gap : Gap} (h : Gap.skip .blank s.pos s.rest = gap)
    (never : (∀ start stop opening, gap ≠ .unterminated start stop opening) ∨ '*' ∉ tail) :
    Gap.skip .blank (s.feed tail).pos (s.feed tail).rest = gap.feed tail := by
  subst h
  exact Gap.skip_feed never

/-- Where the text ended, the scanner goes on behind the line feed. -/
theorem next_feed_finish (h : s.next d = .ok (t, s')) (ends : t.lexeme.isFinish = true)
    (tail : List Char) : (s.feed tail).next d = (s.behind tail).next d := by
  cases next_eq_ok_iff.1 h with
  | unclosed => cases ends
  | @ended pos skips =>
    have place : pos = s.pos + s.rest.length := by
      have told := Gap.tells_skip .blank s.pos s.rest
      rw [skips] at told
      obtain ⟨n, same, gap, rest, length, -⟩ := told
      rw [same, rest, length, List.append_nil]
    unfold next
    rw [skip_feed skips (.inl nofun), Gap.feed, place]
    rfl
  | token skips read =>
    rw [show _ = false from Lexed.read_goes read] at ends
    cases ends

/-- A closed token before the line feed is found again. -/
theorem next_feed (h : s.next d = .ok (t, s')) (goes : t.lexeme.isFinish = false)
    (closed : Lexed.isOpen t.lexeme = false) (tail : List Char) :
    (s.feed tail).next d = .ok (t, s'.feed tail) ∧ s'.behind tail = s.behind tail := by
  cases next_eq_ok_iff.1 h with
  | unclosed => cases closed
  | ended => cases goes
  | @token pos c cs x skips read =>
    constructor
    · exact next_eq_ok_iff.2 (.token (skip_feed skips (.inl nofun)) (Lexed.read_feed read closed tail))
    · have told := Gap.tells_skip .blank s.pos s.rest
      rw [skips] at told
      obtain ⟨n, same, gap, rest, length, -⟩ := told
      have parts := congrArg List.length (Lexed.read_splits d c cs x read).append
      have whole := congrArg List.length rest
      rw [List.length_append] at parts whole
      unfold behind
      congr 1
      dsimp only
      omega

/-- What is open before the line feed takes the whole text with it, if nothing closes it. -/
theorem next_open (h : s.next d = .ok (t, s')) (before : Lexed.isOpen t.lexeme = true)
    (never : ∀ e ∈ Lexed.closingChars, e ∉ tail) :
    ∃ u m, (s.feed tail).next d = .ok (u, m) ∧ Lexed.isOpen u.lexeme = true := by
  cases next_eq_ok_iff.1 h with
  | unclosed skips =>
    exact ⟨_, _, next_eq_ok_iff.2 (.unclosed (skip_feed skips (.inr (never '*' (by decide))))), rfl⟩
  | ended => cases before
  | token skips read =>
    obtain ⟨y, hy, still⟩ := (Lexed.read_open read before).2 tail never
    exact ⟨_, _, next_eq_ok_iff.2 (.token (skip_feed skips (.inl nofun)) hy), still⟩

theorem next_fault {f : Fault} (h : s.next d = .error f) (tail : List Char) :
    (s.feed tail).next d = .error f := by
  obtain ⟨pos, c, cs, skips, read⟩ := next_eq_error_iff.1 h
  exact next_eq_error_iff.2 ⟨pos, c, _, skip_feed skips (.inl nofun), Lexed.read_fault read tail⟩

/-- Behind a token that was never closed nothing is left. -/
theorem next_rest_of_open (h : s.next d = .ok (t, s')) (never : Lexed.isOpen t.lexeme = true) :
    s'.rest = [] := by
  cases next_eq_ok_iff.1 h with
  | unclosed => rfl
  | ended => cases never
  | token skips read => exact (Lexed.read_open read never).1

theorem closed_of_finish (ends : t.lexeme.isFinish = true) : Lexed.isOpen t.lexeme = false := by
  refine Lexed.isOpen_of_well fun e same => ?_
  rw [same] at ends
  cases ends

/-- A closed token of the text with the line feed stands before the line feed, or nothing stands there any
more; if nothing behind it can close a token. -/
theorem next_before {m : Scanner} (h : (s.feed tail).next d = .ok (t, m))
    (closed : Lexed.isOpen t.lexeme = false) (never : ∀ e ∈ Lexed.closingChars, e ∉ tail) :
    (∃ fin m', s.next d = .ok (fin, m') ∧ fin.lexeme.isFinish = true) ∨
      t.lexeme.isFinish = false ∧ ∃ s', s.next d = .ok (t, s') ∧ m = s'.feed tail ∧
        s'.behind tail = s.behind tail := by
  -- The scanner is asked without the tail first. A fault stays, and so does a token that is closed.
  -- One that is open stays open, as the tail has nothing that could close it.
  cases hnext : s.next d with
  | error f =>
    rw [next_fault hnext tail] at h
    cases h
  | ok r =>
    obtain ⟨u, s'⟩ := r
    cases finish : u.lexeme.isFinish with
    | true => exact .inl ⟨u, s', rfl, finish⟩
    | false =>
      cases here : Lexed.isOpen u.lexeme with
      | true =>
        obtain ⟨v, m', again, still⟩ := next_open hnext here never
        cases again.symm.trans h
        rw [still] at closed
        cases closed
      | false =>
        obtain ⟨again, same⟩ := next_feed hnext finish here tail
        cases again.symm.trans h
        exact .inr ⟨finish, s', rfl, rfl, same⟩

/-! ### All tokens before a line feed -/

/-- The text from here on is cut into these tokens, and then it ends. -/
inductive Delivers (d : Dialect) : Scanner → List Token → Prop
  | nil {s m : Scanner} {t : Token} (last : s.next d = .ok (t, m)) (ends : t.lexeme.isFinish = true) :
      Delivers d s []
  | cons {s m : Scanner} {t : Token} {ts : List Token} (first : s.next d = .ok (t, m))
      (goes : t.lexeme.isFinish = false) (rest : Delivers d m ts) : Delivers d s (t :: ts)

namespace Delivers

variable {ts us : List Token}

theorem of_scans {m m' : Scanner} {fin : Token} (h : Scans d s ts m) (last : m.next d = .ok (fin, m'))
    (ends : fin.lexeme.isFinish = true) : Delivers d s ts := by
  induction h with
  | nil => exact .nil last ends
  | cons first goes _ ih => exact .cons first goes (ih last)

theorem scans (h : Delivers d s ts) : ∃ m fin m', Scans d s ts m ∧ m.next d = .ok (fin, m') ∧
    fin.lexeme.isFinish = true := by
  induction h with
  | nil last ends => exact ⟨_, _, _, .nil _, last, ends⟩
  | cons first goes _ ih =>
    obtain ⟨m, fin, m', scans, last, ends⟩ := ih
    exact ⟨m, fin, m', .cons first goes scans, last, ends⟩

theorem of_next (h : Delivers d s ts) (same : s'.next d = s.next d) : Delivers d s' ts := by
  cases h with
  | nil last ends => exact .nil (same.trans last) ends
  | cons first goes rest => exact .cons (same.trans first) goes rest

/-- A text is cut into tokens in one way. -/
theorem unique (h : Delivers d s ts) (h' : Delivers d s us) : ts = us := by
  induction h generalizing us with
  | nil last ends =>
    cases h' with
    | nil => rfl
    | cons first goes =>
      cases last.symm.trans first
      rw [ends] at goes
      cases goes
  | cons first goes _ ih =>
    cases h' with
    | nil last ends =>
      cases first.symm.trans last
      rw [goes] at ends
      cases ends
    | cons first' _ rest =>
      cases first.symm.trans first'
      rw [ih rest]

theorem moved (h : Delivers d s ts) (k : Nat) : Delivers d (s.moved k) (ts.map (Token.moved k)) := by
  obtain ⟨m, fin, m', scans, last, ends⟩ := h.scans
  have moved : (m.moved k).next d = .ok (fin.moved k, m'.moved k) := by
    rw [next_moved, last]
    rfl
  exact of_scans (scans.moved k) moved ends

theorem goes (h : Delivers d s ts) : ∀ t ∈ ts, t.lexeme.isFinish = false := by
  obtain ⟨m, fin, m', scans, -⟩ := h.scans
  exact scans.goes

theorem length_le (h : Delivers d s ts) : ts.length ≤ s.rest.length := by
  induction h with
  | nil => exact Nat.zero_le _
  | cons first goes _ ih => exact Nat.lt_of_le_of_lt ih (next_shorter first goes)

/-- Only the last token of a text can be one that was never closed. -/
theorem closed (h : Delivers d s ts) (last : ∀ t ∈ ts.getLast?, Lexed.isOpen t.lexeme = false) :
    ∀ t ∈ ts, Lexed.isOpen t.lexeme = false := by
  induction h with
  | nil => exact List.forall_mem_nil _
  | @cons s m t ts first goes rest ih =>
    cases rest with
    | nil => exact List.forall_mem_singleton.2 (last t rfl)
    | @cons m m' u ts second goes' rest =>
      refine List.forall_mem_cons.2 ⟨?_, ih last⟩
      -- A token comes behind it, so something is left.
      refine Bool.eq_false_iff.2 fun never => ?_
      have shorter := next_shorter second goes'
      rw [next_rest_of_open first never] at shorter
      exact absurd shorter (Nat.not_lt_zero _)

/-- The tokens before the line feed are found again, and then those behind it. -/
theorem feed (h : Delivers d s ts) (closed : ∀ t ∈ ts, Lexed.isOpen t.lexeme = false) {tail : List Char}
    (later : Delivers d (s.behind tail) us) : Delivers d (s.feed tail) (ts ++ us) := by
  induction h with
  | nil last ends => exact later.of_next (next_feed_finish last ends tail)
  | cons first goes _ ih =>
    obtain ⟨here, closed⟩ := List.forall_mem_cons.1 closed
    obtain ⟨again, same⟩ := next_feed first goes here tail
    exact .cons again goes (ih closed (same ▸ later))

/-- Whatever the text with the line feed is cut into, these tokens come first. -/
theorem after (h : Delivers d s ts) (closed : ∀ t ∈ ts, Lexed.isOpen t.lexeme = false)
    {tail : List Char} {all : List Token} (whole : Delivers d (s.feed tail) all) :
    ∃ us, all = ts ++ us ∧ Delivers d (s.behind tail) us := by
  induction h generalizing all with
  | nil last ends => exact ⟨all, rfl, whole.of_next (next_feed_finish last ends tail).symm⟩
  | cons first goes _ ih =>
    obtain ⟨here, closed⟩ := List.forall_mem_cons.1 closed
    obtain ⟨again, same⟩ := next_feed first goes here tail
    cases whole with
    | nil last ends =>
      cases again.symm.trans last
      rw [goes] at ends
      cases ends
    | cons first' _ rest =>
      cases again.symm.trans first'
      obtain ⟨us, rfl, later⟩ := ih closed rest
      exact ⟨us, rfl, same ▸ later⟩

/-- Where every token is closed and nothing behind the line feed can close one, the text before it is cut
into tokens of its own. -/
theorem before {tail : List Char} {all : List Token} (whole : Delivers d (s.feed tail) all)
    (closed : ∀ t ∈ all, Lexed.isOpen t.lexeme = false)
    (never : ∀ e ∈ Lexed.closingChars, e ∉ tail) :
    ∃ ts us, all = ts ++ us ∧ Delivers d s ts ∧ Delivers d (s.behind tail) us := by
  generalize hs : s.feed tail = s₁ at whole
  induction whole generalizing s with
  | nil last ends =>
    subst hs
    obtain ⟨fin, m', here, finish⟩ | ⟨goes, -⟩ := next_before last (closed_of_finish ends) never
    · exact ⟨[], [], rfl, .nil here finish,
        (Delivers.nil last ends).of_next (next_feed_finish here finish tail).symm⟩
    · rw [goes] at ends
      cases ends
  | cons first goes rest ih =>
    subst hs
    obtain ⟨closedFirst, closed⟩ := List.forall_mem_cons.1 closed
    obtain ⟨fin, m', here, finish⟩ | ⟨-, s', here, rfl, same⟩ := next_before first closedFirst never
    · exact ⟨[], _, rfl, .nil here finish,
        (Delivers.cons first goes rest).of_next (next_feed_finish here finish tail).symm⟩
    · obtain ⟨ts, us, rfl, alone, later⟩ := ih closed rfl
      exact ⟨_ :: ts, us, rfl, .cons here goes alone, same ▸ later⟩

end Delivers

end Scanner

/-! ### Whole texts -/

open Scanner

/-- A text is cut into tokens, and its end comes last. -/
theorem delivers_of_tokens {d : Dialect} {source : List Char} {all : List Token}
    (h : tokens d source = .ok all) :
    ∃ ts fin, all = ts ++ [fin] ∧ fin.lexeme.isFinish = true ∧ Delivers d (Scanner.start source) ts := by
  obtain ⟨ts, fin, m, m', rfl, scans, last, ends⟩ := scans_of_tokens' h
  exact ⟨ts, fin, rfl, ends, .of_scans scans last ends⟩

theorem Scanner.start_shorter (source : List Char) :
    (Scanner.start source).rest.length ≤ source.length := by
  rw [Scanner.start_rest, List.length_drop]
  exact Nat.sub_le _ _

theorem Scanner.Delivers.tokens {d : Dialect} {source : List Char} {ts : List Token}
    (h : Delivers d (Scanner.start source) ts) :
    ∃ fin, Plc.tokens d source = .ok (ts ++ [fin]) ∧ fin.lexeme.isFinish = true := by
  obtain ⟨m, fin, m', scans, last, ends⟩ := h.scans
  refine ⟨fin, ?_, ends⟩
  unfold Plc.tokens scan
  rw [scans.run_last last ends _ (Nat.lt_succ_of_le
    (Nat.le_trans h.length_le (Scanner.start_shorter source)))]

/-- The tokens have characters, and stand in the text where the scanner began or later. -/
theorem Scanner.Delivers.within {d : Dialect} {source : List Char} {s : Scanner} {ts : List Token}
    (h : Delivers d s ts) (place : s.In source) :
    ∀ t ∈ ts, s.pos ≤ t.span.start ∧ t.span.start < t.span.stop ∧ t.span.stop ≤ source.length := by
  induction h with
  | nil => exact List.forall_mem_nil _
  | @cons s m t ts first goes rest ih =>
    obtain ⟨follows, place', stop⟩ := Scanner.next_tile first place
    have here := follows.start
    have some_char := follows.goes goes
    refine List.forall_mem_cons.2 ⟨⟨here, some_char, follows.stop⟩, fun u hu => ?_⟩
    obtain ⟨later, within⟩ := ih place' u hu
    exact ⟨by omega, within⟩

/-- Each token begins before the next. -/
theorem Scanner.Delivers.row {d : Dialect} {source : List Char} {s : Scanner} {ts : List Token}
    (h : Delivers d s ts) (place : s.In source) :
    ts.Pairwise fun t u => t.span.start < u.span.start := by
  induction h with
  | nil => exact .nil
  | @cons s m t ts first goes rest ih =>
    obtain ⟨follows, place', stop⟩ := Scanner.next_tile first place
    have some_char := follows.goes goes
    refine .cons (fun u hu => ?_) (ih place')
    obtain ⟨later, -⟩ := rest.within place' u hu
    omega

end Plc
