/-
Tokens tile a text.

Between two tokens of a text, before the first and after the last, stand blanks and
comments and nothing else; so a text is its tokens and what fills the gaps.

* `Gap.Fills` — blanks and comments in a row, told without the scanner;
* `Gap.tells_skip` — what is passed over before a token, and before a comment that never closes;
* `Scanner.next_tile` — one token and the gap before it;
* `tokens_tile` — all tokens of a text, and what comes when more are asked for.
-/
import Plc.Proofs.Token.Stretch

namespace Plc

open Text

/-! ### Blanks and comments -/

namespace Gap

/-- What stands between `(*` and the `*)` that closes it: comments of the same kind, and characters
at which neither mark begins. -/
inductive Inside : List Char → Prop
  | nil : Inside []
  | char {c : Char} {text : List Char} (opens : ¬ ['(', '*'] <+: c :: (text ++ ['*', ')']))
      (closes : ¬ ['*', ')'] <+: c :: (text ++ ['*', ')'])) (more : Inside text) :
      Inside (c :: text)
  | comment {inner text : List Char} (inside : Inside inner) (more : Inside text) :
      Inside ('(' :: '*' :: (inner ++ '*' :: ')' :: text))

/-- Blanks and comments in a row, before the given characters.  A comment to the end of its line
takes the line feed with it, unless the text ends before one comes. -/
inductive Fills (rest : List Char) : List Char → Prop
  | nil : Fills rest []
  | blank {c : Char} {gap : List Char} (blank : isBlank c = true) (more : Fills rest gap) :
      Fills rest (c :: gap)
  | line {text gap : List Char} (one : '\n' ∉ text) (more : Fills rest gap) :
      Fills rest ('/' :: '/' :: (text ++ '\n' :: gap))
  | lastLine {text : List Char} (one : '\n' ∉ text) (ends : rest = []) :
      Fills rest ('/' :: '/' :: text)
  | block {text gap : List Char} (first : ¬ ['*', '/'] <:+: text) (more : Fills rest gap) :
      Fills rest ('/' :: '*' :: (text ++ '*' :: '/' :: gap))
  | nested {text gap : List Char} (inside : Inside text) (more : Fills rest gap) :
      Fills rest ('(' :: '*' :: (text ++ '*' :: ')' :: gap))

/-- So many comments are closed one after another, and then come blanks and comments. -/
def Closing (rest : List Char) : Nat → List Char → Prop
  | 0, gap => Fills rest gap
  | depth + 1, gap => ∃ text more, Inside text ∧ gap = text ++ '*' :: ')' :: more ∧
      Closing rest depth more

/-- What is still to come where the reading has got into a comment or stands between two. -/
def Pending (rest : List Char) : Mode → List Char → Prop
  | .blank, gap => Fills rest gap
  | .line, gap => ('\n' ∉ gap ∧ rest = []) ∨
      ∃ text more, '\n' ∉ text ∧ gap = text ++ '\n' :: more ∧ Fills rest more
  | .block _, gap => ∃ text more, ¬ ['*', '/'] <:+: text ∧ gap = text ++ '*' :: '/' :: more ∧
      Fills rest more
  | .nested _ depth, gap => Closing rest (depth + 1) gap

/-- The text is some characters that are passed over in the mode, so many, and the rest. -/
def Passes (mode : Mode) (cs : List Char) (n : Nat) (rest : List Char) : Prop :=
  ∃ gap, cs = gap ++ rest ∧ n = gap.length ∧ Pending rest mode gap

namespace Passes

variable {cs rest : List Char} {n start depth : Nat} {c : Char}

theorem nil (rest : List Char) : Passes .blank rest 0 rest :=
  ⟨[], rfl, rfl, .nil⟩

theorem blank (hc : isBlank c = true) (h : Passes .blank cs n rest) :
    Passes .blank (c :: cs) (n + 1) rest := by
  obtain ⟨gap, rfl, rfl, fills⟩ := h
  exact ⟨c :: gap, rfl, rfl, .blank hc fills⟩

theorem openLine (h : Passes .line cs n rest) : Passes .blank ('/' :: '/' :: cs) (n + 2) rest := by
  obtain ⟨gap, rfl, rfl, ⟨one, ends⟩ | ⟨text, more, one, rfl, fills⟩⟩ := h
  · exact ⟨'/' :: '/' :: gap, rfl, rfl, .lastLine one ends⟩
  · exact ⟨'/' :: '/' :: (text ++ '\n' :: more), rfl, rfl, .line one fills⟩

theorem openBlock (h : Passes (.block start) cs n rest) :
    Passes .blank ('/' :: '*' :: cs) (n + 2) rest := by
  obtain ⟨gap, rfl, rfl, text, more, first, rfl, fills⟩ := h
  exact ⟨'/' :: '*' :: (text ++ '*' :: '/' :: more), rfl, rfl, .block first fills⟩

theorem openNested (h : Passes (.nested start 0) cs n rest) :
    Passes .blank ('(' :: '*' :: cs) (n + 2) rest := by
  obtain ⟨gap, rfl, rfl, text, more, inside, rfl, fills⟩ := h
  exact ⟨'(' :: '*' :: (text ++ '*' :: ')' :: more), rfl, rfl, .nested inside fills⟩

theorem endLine (h : Passes .blank cs n rest) : Passes .line ('\n' :: cs) (n + 1) rest := by
  obtain ⟨gap, rfl, rfl, fills⟩ := h
  exact ⟨'\n' :: gap, rfl, rfl, .inr ⟨[], gap, List.not_mem_nil, rfl, fills⟩⟩

theorem inLine (hc : c ≠ '\n') (h : Passes .line cs n rest) :
    Passes .line (c :: cs) (n + 1) rest := by
  obtain ⟨gap, rfl, rfl, ⟨one, ends⟩ | ⟨text, more, one, rfl, fills⟩⟩ := h
  · refine ⟨c :: gap, rfl, rfl, .inl ⟨?_, ends⟩⟩
    simp [hc.symm, one]
  · refine ⟨c :: (text ++ '\n' :: more), rfl, rfl, .inr ⟨c :: text, more, ?_, rfl, fills⟩⟩
    simp [hc.symm, one]

theorem lastLine : Passes .line [] 0 [] :=
  ⟨[], rfl, rfl, .inl ⟨List.not_mem_nil, rfl⟩⟩

theorem closeBlock (h : Passes .blank cs n rest) :
    Passes (.block start) ('*' :: '/' :: cs) (n + 2) rest := by
  obtain ⟨gap, rfl, rfl, fills⟩ := h
  exact ⟨'*' :: '/' :: gap, rfl, rfl, [], gap, by simp, rfl, fills⟩

theorem inBlock (other : ¬ ['*', '/'] <+: c :: cs) (h : Passes (.block start) cs n rest) :
    Passes (.block start) (c :: cs) (n + 1) rest := by
  obtain ⟨gap, rfl, rfl, text, more, first, rfl, fills⟩ := h
  refine ⟨c :: (text ++ '*' :: '/' :: more), rfl, rfl, c :: text, more, ?_, rfl, fills⟩
  intro closes
  rcases List.infix_cons_iff.1 closes with here | later
  · -- the mark would be seen in front of everything that follows
    refine other (here.trans ?_)
    rw [List.append_assoc]
    exact List.prefix_append (c :: text) _
  · exact first later

theorem openInner (h : Passes (.nested start (depth + 1)) cs n rest) :
    Passes (.nested start depth) ('(' :: '*' :: cs) (n + 2) rest := by
  obtain ⟨gap, rfl, rfl, inner, _, inside, rfl, text, more, outside, rfl, closing⟩ := h
  refine ⟨'(' :: '*' :: (inner ++ '*' :: ')' :: (text ++ '*' :: ')' :: more)), rfl, rfl, ?_⟩
  refine ⟨'(' :: '*' :: (inner ++ '*' :: ')' :: text), more, .comment inside outside, ?_, closing⟩
  simp

theorem closeInner (h : Passes (match depth with | 0 => .blank | d + 1 => .nested start d) cs n rest) :
    Passes (.nested start depth) ('*' :: ')' :: cs) (n + 2) rest := by
  obtain ⟨gap, rfl, rfl, pending⟩ := h
  refine ⟨'*' :: ')' :: gap, rfl, rfl, [], gap, .nil, rfl, ?_⟩
  cases depth with
  | zero | succ d => exact pending

theorem inNested (opens : ¬ ['(', '*'] <+: c :: cs) (closes : ¬ ['*', ')'] <+: c :: cs)
    (h : Passes (.nested start depth) cs n rest) :
    Passes (.nested start depth) (c :: cs) (n + 1) rest := by
  obtain ⟨gap, rfl, rfl, text, more, inside, rfl, closing⟩ := h
  have longer : c :: (text ++ ['*', ')']) <+: c :: (text ++ '*' :: ')' :: more ++ rest) :=
    ⟨more ++ rest, by simp⟩
  refine ⟨c :: (text ++ '*' :: ')' :: more), rfl, rfl, c :: text, more, ?_, rfl, closing⟩
  exact .char (fun here => opens (here.trans longer)) (fun here => closes (here.trans longer)) inside

end Passes

/-- Two characters begin a text. -/
theorem two_prefix_iff {a b c : Char} {cs : List Char} :
    [a, b] <+: c :: cs ↔ c = a ∧ ∃ tail, cs = b :: tail := by
  rw [List.cons_prefix_cons]
  constructor
  · rintro ⟨rfl, tail, rfl⟩
    exact ⟨rfl, tail, rfl⟩
  · rintro ⟨rfl, tail, rfl⟩
    exact ⟨rfl, tail, rfl⟩

/-- Where the comment that is being read was opened, if it is of a kind that must be closed, and by
which characters. -/
def Mode.opened? : Mode → Option (Nat × String)
  | .blank | .line => none
  | .block start => some (start, "/*")
  | .nested start _ => some (start, "(*")

/-- What the reading in a mode says about the text from an offset on: so much is passed over, or a
comment that takes the rest of the text was open already or is opened after what is passed over. -/
def Tells (mode : Mode) (pos : Nat) (cs : List Char) : Gap → Prop
  | .clear stop rest => ∃ n, stop = pos + n ∧ Passes mode cs n rest
  | .unterminated start stop opening => stop = pos + cs.length ∧
      (mode.opened? = some (start, opening) ∨ (opening = "/*" ∨ opening = "(*") ∧
        ∃ n text, start = pos + n ∧ Passes mode cs n (opening.toList ++ text))

/-- Some characters more are passed over.  They may be those that open a comment. -/
theorem Tells.step {mode next : Mode} {pos : Nat} (front : List Char) {cs : List Char} {gap : Gap}
    (h : Tells next (pos + front.length) cs gap)
    (lift : ∀ n rest, Passes next cs n rest → Passes mode (front ++ cs) (n + front.length) rest)
    (opened : ∀ place opening, next.opened? = some (place, opening) →
      mode.opened? = some (place, opening) ∨ mode = .blank ∧ place = pos ∧
        (opening = "/*" ∨ opening = "(*") ∧ front = opening.toList) :
    Tells mode pos (front ++ cs) gap := by
  cases gap with
  | clear stop rest =>
    obtain ⟨n, rfl, passes⟩ := h
    exact ⟨n + front.length, by omega, lift n rest passes⟩
  | unterminated start stop opening =>
    obtain ⟨rfl, known⟩ := h
    refine ⟨by rw [List.length_append]; omega, ?_⟩
    rcases known with known | ⟨mark, n, text, rfl, passes⟩
    · rcases opened start opening known with before | ⟨rfl, rfl, mark, rfl⟩
      · exact .inl before
      · exact .inr ⟨mark, 0, cs, rfl, .nil _⟩
    · exact .inr ⟨mark, n + front.length, text, by omega, lift n _ passes⟩

/-- Blanks and comments are passed over, and nothing else; a comment that never closes takes the
rest of the text. -/
theorem tells_skip (mode : Mode) (pos : Nat) (cs : List Char) :
    Tells mode pos cs (skip mode pos cs) := by
  -- Induction along the reading. Each case passes over one or two characters by one rule of
  -- `Passes`; where a comment opens, its place is known from then on.
  fun_induction skip mode pos cs with
  | case1 pos cs ih =>
    exact ih.step ['/', '/'] (fun _ _ h => h.openLine) fun _ _ known => by cases known
  | case2 pos cs ih =>
    refine ih.step ['/', '*'] (fun _ _ h => h.openBlock) ?_
    rintro _ _ ⟨⟩
    exact .inr ⟨rfl, rfl, .inl rfl, rfl⟩
  | case3 pos cs ih =>
    refine ih.step ['(', '*'] (fun _ _ h => h.openNested) ?_
    rintro _ _ ⟨⟩
    exact .inr ⟨rfl, rfl, .inr rfl, rfl⟩
  | case4 pos c cs _ _ _ blank ih =>
    exact ih.step [c] (fun _ _ h => h.blank blank) fun _ _ known => by cases known
  | case5 | case6 => exact ⟨0, rfl, .nil _⟩
  | case7 pos c cs ih =>
    by_cases hc : c = '\n'
    · rw [if_pos hc] at ih ⊢
      exact ih.step [c] (fun _ _ h => hc ▸ h.endLine) fun _ _ known => by cases known
    · rw [if_neg hc] at ih ⊢
      exact ih.step [c] (fun _ _ h => h.inLine hc) fun _ _ known => by cases known
  | case8 => exact ⟨0, rfl, .lastLine⟩
  | case9 start pos cs ih =>
    exact ih.step ['*', '/'] (fun _ _ h => h.closeBlock) fun _ _ known => by cases known
  | case10 start pos c cs other ih =>
    refine ih.step [c] (fun _ _ h => h.inBlock fun mark => ?_) fun _ _ => .inl
    obtain ⟨hc, tail, same⟩ := two_prefix_iff.1 mark
    exact other tail hc same
  | case11 | case15 => exact ⟨rfl, .inl rfl⟩
  | case12 start depth pos cs ih => exact ih.step ['(', '*'] (fun _ _ h => h.openInner) fun _ _ => .inl
  | case13 start depth pos cs ih =>
    refine ih.step ['*', ')'] (fun _ _ h => h.closeInner) fun place opening known => ?_
    cases depth with
    | zero => cases known
    | succ d => exact .inl known
  | case14 start depth pos c cs opens closes ih =>
    refine ih.step [c] (fun _ _ h => h.inNested (fun mark => ?_) fun mark => ?_) fun _ _ => .inl
    · obtain ⟨hc, tail, same⟩ := two_prefix_iff.1 mark
      exact opens tail hc same
    · obtain ⟨hc, tail, same⟩ := two_prefix_iff.1 mark
      exact closes tail hc same

end Gap

/-! ### One token -/

namespace Lexed

/-- The lexeme is neither the end of the text nor one that was never closed. -/
def IsWhole (l : Lexeme) : Prop :=
  l.isFinish = false ∧ isOpen l = false

theorem number_whole {cs : List Char} {x : Lexed} (h : number cs = .ok x) : IsWhole x.lexeme := by
  unfold number at h
  dsimp only at h
  split at h
  · unfold basedNumber at h
    obtain ⟨radix, -, h⟩ := bind_eq_ok h
    obtain ⟨lexeme, based, h⟩ := bind_eq_ok h
    cases h
    obtain ⟨n, rfl⟩ | rfl := basedLexeme_cases based
    · exact ⟨rfl, rfl⟩
    · exact ⟨rfl, rfl⟩
  · unfold decimalNumber at h
    dsimp only at h
    split at h
    · cases h
      exact ⟨rfl, rfl⟩
    · split at h
      · obtain ⟨n, -, h⟩ := bind_eq_ok h
        cases h
        exact ⟨rfl, rfl⟩
      · split at h
        · cases h
        · cases h
          exact ⟨rfl, rfl⟩
      · cases h
        exact ⟨rfl, rfl⟩

theorem address_whole {cs : List Char} {x : Lexed} (h : address cs = .ok x) :
    IsWhole x.lexeme := by
  have tail (lead : List Char) (area : Address.Area) (size : Address.Size) (cs : List Char)
      (h : addressTail lead area size cs = .ok x) : IsWhole x.lexeme := by
    unfold addressTail at h
    dsimp only at h
    split at h
    · cases h
      exact ⟨rfl, rfl⟩
    · obtain ⟨bit, -, h⟩ := bind_eq_ok h
      obtain ⟨byte, -, h⟩ := bind_eq_ok h
      cases h
      exact ⟨rfl, rfl⟩
  unfold address at h
  repeat' split at h
  all_goals first | exact tail _ _ _ _ h | (cases h; exact ⟨rfl, rfl⟩)

theorem word_whole (d : Dialect) (cs : List Char) : IsWhole (word d cs).lexeme := by
  unfold word
  dsimp only
  split
  · next literal known =>
    -- the four literals that a word announces
    unfold timeLexeme? at known
    repeat' split at known
    all_goals first | (cases known; exact ⟨rfl, rfl⟩) | cases known
  · unfold plainWord
    split <;> exact ⟨rfl, rfl⟩

theorem mark_whole (d : Dialect) (c : Char) (cs : List Char) : IsWhole (mark d c cs).lexeme := by
  unfold mark
  split
  · next text lexeme h =>
    have all : ∀ m ∈ compoundMarks ++ plainMarks, IsWhole m.2 := by
      simp [compoundMarks, plainMarks, IsWhole, Lexeme.isFinish, isOpen]
    refine all (text, lexeme) ?_
    have listed := List.mem_of_find?_eq_some h
    unfold marks at listed
    split at listed
    · exact listed
    · exact List.mem_append_right _ listed
  · exact ⟨rfl, rfl⟩

/-- What is read is never the end of the text. -/
theorem read_goes {d : Dialect} {c : Char} {cs : List Char} {x : Lexed}
    (h : read d c cs = .ok x) : x.lexeme.isFinish = false := by
  have string (quote : Char) (cs : List Char) : (stringLiteral quote cs).lexeme.isFinish = false := by
    unfold stringLiteral
    split
    · dsimp only
      split <;> rfl
    · rfl
  -- The cases are those of the reading.
  unfold read at h
  split at h
  · cases h
    exact (word_whole d _).1
  · split at h
    · exact (number_whole h).1
    · split at h
      · cases h
        exact string c cs
      · split at h
        · cases h
          split
          · unfold quotedName
            split <;> rfl
          · exact string c cs
        · split at h
          · exact (address_whole h).1
          · split at h
            · cases h
              unfold pragma
              split <;> rfl
            · cases h
              exact (mark_whole d c cs).1

end Lexed

namespace Token

/-- The token is a comment that never closes: its span runs to the end of the text, and its
characters are the two that open it. -/
def IsOpenComment (t : Token) (source : List Char) : Prop :=
  t.lexeme = .malformed .unterminatedComment ∧ t.span.stop = source.length ∧
    (t.text = "/*" ∨ t.text = "(*") ∧ t.text.toList <+: t.span.text source

/-- The token comes next after an offset in a text: between the two stand blanks and comments, the
characters of the token are those of its span, and only the end of the text has none. -/
structure Follows (t : Token) (source : List Char) (pos : Nat) : Prop where
  start : pos ≤ t.span.start
  stop : t.span.stop ≤ source.length
  gap : Gap.Fills (source.drop t.span.start) (slice source pos t.span.start)
  text : t.text.toList = t.span.text source ∨ t.IsOpenComment source
  goes : t.lexeme.isFinish = false → t.span.start < t.span.stop
  ends : t.lexeme.isFinish = true → t = Scanner.finish source.length

end Token

namespace Scanner

/-- The scanner stands in the text. -/
def In (s : Scanner) (source : List Char) : Prop :=
  s.pos ≤ source.length ∧ s.rest = source.drop s.pos

theorem start_in (source : List Char) : (Scanner.start source).In source := by
  unfold Scanner.start
  split
  · exact ⟨by simp, rfl⟩
  · exact ⟨Nat.zero_le _, rfl⟩

/-- What is left of the text after some characters, and the characters themselves. -/
theorem In.past {s : Scanner} {source gap rest : List Char} (h : s.In source)
    (parts : s.rest = gap ++ rest) :
    s.pos + gap.length + rest.length = source.length ∧ source.drop (s.pos + gap.length) = rest ∧
      slice source s.pos (s.pos + gap.length) = gap := by
  obtain ⟨le, here⟩ := h
  rw [here] at parts
  have size := congrArg List.length parts
  rw [List.length_drop, List.length_append] at size
  refine ⟨by omega, ?_, ?_⟩
  · rw [← List.drop_drop, parts, List.drop_left]
  · rw [slice, parts, Nat.add_sub_cancel_left, List.take_left]

/-- The next token follows where the scanner stands, and the scanner goes on where it ends. -/
theorem next_tile {d : Dialect} {source : List Char} {s s' : Scanner} {t : Token}
    (h : s.next d = .ok (t, s')) (place : s.In source) :
    t.Follows source s.pos ∧ s'.In source ∧ t.span.stop = s'.pos := by
  have told := Gap.tells_skip .blank s.pos s.rest
  cases next_eq_ok_iff.1 h with
  | @unclosed start stop opening skipped =>
    -- a comment that takes the rest of the text
    rw [skipped] at told
    obtain ⟨rfl, known | ⟨mark, n, text, rfl, gap, parts, rfl, fills⟩⟩ := told
    · cases known
    obtain ⟨whole, rest, cut⟩ := place.past parts
    obtain ⟨-, here⟩ := place
    have size : s.pos + s.rest.length = source.length := by
      rw [← whole, parts, List.length_append, Nat.add_assoc]
    have two : 0 < opening.toList.length := by
      rcases mark with rfl | rfl <;> decide
    rw [List.length_append] at whole
    have longer : max (s.pos + gap.length) (s.pos + s.rest.length) = source.length := by omega
    refine ⟨⟨Nat.le_add_right _ _, Nat.le_of_eq longer, ?_, .inr ⟨rfl, longer, mark, ?_⟩, fun _ => ?_,
      nofun⟩, ⟨Nat.le_of_eq size, ?_⟩, ?_⟩
    · show Gap.Fills (source.drop (s.pos + gap.length)) (slice source s.pos (s.pos + gap.length))
      rw [rest, cut]
      exact fills
    · show opening.toList <+: (source.drop (s.pos + gap.length)).take
        (max (s.pos + gap.length) (s.pos + s.rest.length) - (s.pos + gap.length))
      rw [rest, longer, List.prefix_take_iff]
      exact ⟨List.prefix_append _ _, by omega⟩
    · show s.pos + gap.length < max (s.pos + gap.length) (s.pos + s.rest.length)
      omega
    · show [] = source.drop (s.pos + s.rest.length)
      rw [size, List.drop_length]
    · show max (s.pos + gap.length) (s.pos + s.rest.length) = s.pos + s.rest.length
      omega
  | ended skipped =>
    rw [skipped] at told
    obtain ⟨_, rfl, gap, parts, rfl, fills⟩ := told
    obtain ⟨whole, rest, cut⟩ := place.past parts
    rw [List.length_nil, Nat.add_zero] at whole
    refine ⟨⟨Nat.le_add_right _ _, Nat.le_of_eq whole, ?_, .inl ?_, nofun, fun _ => ?_⟩,
      ⟨Nat.le_of_eq whole, rest.symm⟩, rfl⟩
    · show Gap.Fills (source.drop (s.pos + gap.length)) (slice source s.pos (s.pos + gap.length))
      rw [rest, cut]
      exact fills
    · show [] = (source.drop (s.pos + gap.length)).take (s.pos + gap.length - (s.pos + gap.length))
      rw [rest, List.take_nil]
    · rw [whole]
  | @token start c cs x skipped read =>
    rw [skipped] at told
    obtain ⟨_, rfl, gap, parts, rfl, fills⟩ := told
    obtain ⟨some_char, split⟩ := Lexed.read_splits d c cs x read
    obtain ⟨whole, rest, cut⟩ := place.past parts
    rw [← split, List.length_append] at whole
    have positive := List.length_pos_iff.2 some_char
    refine ⟨⟨Nat.le_add_right _ _, ?_, ?_, .inl ?_, fun _ => ?_, fun ends => ?_⟩, ⟨?_, ?_⟩, rfl⟩
    · show s.pos + gap.length + x.text.length ≤ source.length
      omega
    · show Gap.Fills (source.drop (s.pos + gap.length)) (slice source s.pos (s.pos + gap.length))
      rw [rest, cut]
      exact fills
    · show (String.ofList x.text).toList =
        (source.drop (s.pos + gap.length)).take (s.pos + gap.length + x.text.length - _)
      rw [rest, ← split, Nat.add_sub_cancel_left, List.take_left, String.toList_ofList]
    · show s.pos + gap.length < s.pos + gap.length + x.text.length
      omega
    · rw [Lexed.read_goes read] at ends
      cases ends
    · show s.pos + gap.length + x.text.length ≤ source.length
      omega
    · show x.rest = source.drop (s.pos + gap.length + x.text.length)
      rw [← List.drop_drop, rest, ← split, List.drop_left]

end Scanner

/-! ### All tokens -/

/-- Where the tokens after some others may begin: where the last of them ends, or where the text
does, after a byte order mark if there is one. -/
def placeAfter (source : List Char) (front : List Token) : Nat :=
  match front.getLast? with
  | some t => t.span.stop
  | none => (Scanner.start source).pos

namespace Scans

variable {d : Dialect} {source : List Char} {s s' : Scanner} {ts : List Token}

/-- Each token follows the one before it. -/
theorem tile (h : Scans d s ts s') (place : s.In source) :
    s'.In source ∧ (∀ t ∈ ts, s.pos ≤ t.span.start ∧ t.span.stop ≤ s'.pos) ∧ s.pos ≤ s'.pos ∧
      ts.Pairwise fun t u => t.span.stop ≤ u.span.start := by
  induction h with
  | nil s => exact ⟨place, List.forall_mem_nil _, Nat.le_refl _, .nil⟩
  | @cons s m s' t ts first goes rest ih =>
    obtain ⟨follows, place', stop⟩ := Scanner.next_tile first place
    obtain ⟨arrives, within, le, row⟩ := ih place'
    have begins := follows.start
    have ordered := t.span.ordered
    refine ⟨arrives, ?_, by omega, row.cons fun u hu => ?_⟩
    · intro u hu
      rcases List.mem_cons.1 hu with rfl | hu
      · exact ⟨begins, by omega⟩
      · have := within u hu
        exact ⟨by omega, this.2⟩
    · have := (within u hu).1
      omega

/-- The scanner stands after the tokens it has read. -/
theorem placeAfter_eq (h : Scans d (Scanner.start source) ts s) : s.pos = placeAfter source ts := by
  rcases List.eq_nil_or_concat ts with rfl | ⟨front, t, rfl⟩
  · cases h
    rfl
  · rw [List.concat_eq_append] at h ⊢
    obtain ⟨m, before, last⟩ := append_iff.1 h
    obtain _ | ⟨next, -, rest⟩ := last
    cases rest
    obtain ⟨-, -, stop⟩ := Scanner.next_tile next (before.tile (Scanner.start_in source)).1
    rw [placeAfter, List.getLast?_concat]
    exact stop.symm

/-- Asked for one by one, the tokens come in the same order. -/
theorem first (h : Scans d s ts s') (n : Nat) :
    (s.first d (ts.length + n)).map (List.map Prod.fst) =
      (s'.first d n).map fun later => ts ++ later.map Prod.fst := by
  -- Induction on the tokens; a fault behind them stops both sides.
  induction h with
  | nil s =>
    rw [List.length_nil, Nat.zero_add]
    rfl
  | @cons s m s' t ts next goes rest ih =>
    rw [List.length_cons, Nat.add_right_comm, Scanner.first, next]
    show (m.first d (ts.length + n) >>= fun us => pure ((t, m.pos) :: us)).map _ = _
    cases hm : m.first d (ts.length + n) with
    | error f =>
      rw [hm] at ih
      cases hs : s'.first d n with
      | error f' =>
        rw [hs] at ih
        cases ih
        rfl
      | ok later =>
        rw [hs] at ih
        cases ih
    | ok us =>
      rw [hm] at ih
      cases hs : s'.first d n with
      | error f =>
        rw [hs] at ih
        cases ih
      | ok later =>
        rw [hs] at ih
        have same : us.map Prod.fst = ts ++ later.map Prod.fst := Except.ok.inj ih
        show Except.ok (t :: us.map Prod.fst) = _
        rw [same]
        rfl

end Scans

namespace Scanner

/-- At the end of the text every further token is its end. -/
theorem first_finish (d : Dialect) (pos n : Nat) :
    (⟨pos, []⟩ : Scanner).first d n = .ok (List.replicate n (finish pos, pos)) := by
  induction n with
  | zero => rfl
  | succ n ih =>
    have stays : (⟨pos, []⟩ : Scanner).next d = .ok (finish pos, ⟨pos, []⟩) := rfl
    rw [first, stays, List.replicate_succ]
    show ((⟨pos, []⟩ : Scanner).first d n >>= fun us => pure ((finish pos, pos) :: us)) = _
    rw [ih]
    rfl

end Scanner

/-- The tokens of a text follow one another in it, and its end follows them. -/
theorem tokens_row {d : Dialect} {source : List Char} {all : List Token}
    (h : tokens d source = .ok all) :
    ∃ ts, all = ts ++ [Scanner.finish source.length] ∧
      (∀ t ∈ ts, t.span.start < t.span.stop ∧ t.span.stop ≤ source.length) ∧
      all.Pairwise (fun t u => t.span.stop ≤ u.span.start) ∧
      ∀ front t back, all = front ++ t :: back → t.Follows source (placeAfter source front) := by
  obtain ⟨ts, fin, m, m', rfl, scans, last, ends⟩ := scans_of_tokens' h
  obtain ⟨place, within, -, row⟩ := scans.tile (Scanner.start_in source)
  obtain ⟨follows, -, -⟩ := Scanner.next_tile last place
  have same := follows.ends ends
  subst same
  -- where a token of the list stands
  have at_ (front : List Token) (t : Token) (back : List Token)
      (parts : ts ++ [Scanner.finish source.length] = front ++ t :: back) :
      t.Follows source (placeAfter source front) := by
    rcases List.eq_nil_or_concat back with rfl | ⟨back, u, rfl⟩
    · obtain ⟨rfl, single⟩ := List.append_inj' parts rfl
      cases single
      exact scans.placeAfter_eq ▸ follows
    · have parts' : ts ++ [Scanner.finish source.length] = (front ++ t :: back) ++ [u] := by
        rw [parts, List.concat_eq_append, List.append_assoc, List.cons_append]
      obtain ⟨rfl, -⟩ := List.append_inj' parts' rfl
      obtain ⟨k, before, after⟩ := Scans.append_iff.1 scans
      obtain _ | ⟨next, -, -⟩ := after
      rw [← before.placeAfter_eq]
      exact (Scanner.next_tile next (before.tile (Scanner.start_in source)).1).1
  refine ⟨ts, rfl, fun t ht => ?_, ?_, at_⟩
  · obtain ⟨front, back, rfl⟩ := List.append_of_mem ht
    have here := at_ front t (back ++ [Scanner.finish source.length]) (by simp)
    exact ⟨here.goes (scans.goes t ht), here.stop⟩
  · refine List.pairwise_append.2 ⟨row, List.pairwise_singleton _ _, fun t ht u hu => ?_⟩
    rw [List.mem_singleton.1 hu]
    exact Nat.le_trans (within t ht).2 follows.start

/-- The tokens of a text are stretches of it in its order, each of at least one character, and then
its end, which is given again however often it is asked for.  Before the first token, between two
and after the last stand blanks and comments.  A token has the characters of its span, save that
a comment that never closes has only the two that open it. -/
theorem tokens_tile {d : Dialect} {source : List Char} {all : List Token}
    (h : tokens d source = .ok all) :
    ∃ ts, all = ts ++ [Scanner.finish source.length] ∧
      (∀ t ∈ ts, t.span.start < t.span.stop ∧ t.span.stop ≤ source.length) ∧
      all.Pairwise (fun t u => t.span.stop ≤ u.span.start) ∧
      (∀ t ∈ all, t.text.toList = t.span.text source ∨ t.IsOpenComment source) ∧
      (∀ front t back, all = front ++ t :: back → placeAfter source front ≤ t.span.start ∧
        Gap.Fills (source.drop t.span.start)
          (slice source (placeAfter source front) t.span.start)) ∧
      ∀ n, ((Scanner.start source).first d (all.length + n)).map (List.map Prod.fst) =
        .ok (all ++ List.replicate n (Scanner.finish source.length)) := by
  obtain ⟨ts, rfl, inside, row, at_⟩ := tokens_row h
  refine ⟨ts, rfl, inside, row, fun t ht => ?_, fun front t back parts => ?_, fun n => ?_⟩
  · obtain ⟨front, back, parts⟩ := List.append_of_mem ht
    exact (at_ front t back parts).text
  · have here := at_ front t back parts
    exact ⟨here.start, here.gap⟩
  · -- at the end of the text the scanner stays
    obtain ⟨ts', fin, m, m', parts, scans, last, -⟩ := scans_of_tokens' h
    obtain ⟨rfl, single⟩ := List.append_inj' parts rfl
    cases single
    obtain ⟨place, -⟩ := scans.tile (Scanner.start_in source)
    obtain ⟨-, place', stop⟩ := Scanner.next_tile last place
    obtain ⟨k, rest⟩ := m'
    obtain ⟨-, none⟩ := place'
    obtain rfl : source.length = k := stop
    obtain rfl : rest = [] := none.trans (List.drop_length ..)
    have more : m.first d (n + 1) = .ok ((Scanner.finish source.length, source.length) ::
        List.replicate n (Scanner.finish source.length, source.length)) := by
      rw [Scanner.first, last]
      show (Scanner.first d n ⟨source.length, []⟩ >>= fun us =>
        pure ((Scanner.finish source.length, source.length) :: us)) = _
      rw [Scanner.first_finish]
      rfl
    have count : (ts ++ [Scanner.finish source.length]).length + n = ts.length + (n + 1) := by
      simp only [List.length_append, List.length_cons, List.length_nil]
      omega
    rw [count, scans.first, more]
    show Except.ok (ts ++ Scanner.finish source.length :: List.map Prod.fst (List.replicate n _)) = _
    rw [List.map_replicate, List.append_assoc]
    rfl

/-- A byte order mark, comments of all kinds, a string, and a comment that never closes. -/
def gappedText : List Char :=
  "\ufeff (* a (* b *) **) x:='c' // d\n+/* e */%IX0.1 (* (* f *)".toList

/-- The last token before the end is the open comment. -/
theorem tokens_tile_gapped : ∃ all, tokens .generic gappedText = .ok all ∧
    ∃ ts, all = ts ++ [Scanner.finish gappedText.length] ∧
      (∀ t ∈ ts, t.span.start < t.span.stop ∧ t.span.stop ≤ gappedText.length) ∧
      all.Pairwise (fun t u => t.span.stop ≤ u.span.start) ∧
      (∀ t ∈ all, t.text.toList = t.span.text gappedText ∨ t.IsOpenComment gappedText) ∧
      (∀ front t back, all = front ++ t :: back → placeAfter gappedText front ≤ t.span.start ∧
        Gap.Fills (gappedText.drop t.span.start)
          (slice gappedText (placeAfter gappedText front) t.span.start)) ∧
      ∀ n, ((Scanner.start gappedText).first .generic (all.length + n)).map (List.map Prod.fst) =
        .ok (all ++ List.replicate n (Scanner.finish gappedText.length)) := by
  have cut : (tokens .generic gappedText).toOption.isSome = true := by decide +kernel
  obtain ⟨all, h⟩ := ok_of_isSome cut
  exact ⟨all, h, tokens_tile h⟩

end Plc
