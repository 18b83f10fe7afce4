/-
Texts that are cut into given words.

A `Word` is a token without its place.  A text that a printer laid out is cut into the
words that were printed, whatever stands between them.

* `Word.Stands` — the word is read off the front of its characters and those that follow;
* `Cut` — a text is cut into words and a rest;
* `Cut.scan` — the tokens of a text that is cut into words are these words.
-/
import Plc.Proofs.Token.Follow

namespace Plc

open Text Lexed

/-- A lexeme with its characters. -/
structure Word where
  lexeme : Lexeme
  text : String

/-- The word that a token is, wherever it stands. -/
def Token.word (t : Token) : Word := ⟨t.lexeme, t.text⟩

namespace Word

/-- A reserved word. -/
def keyword (k : Keyword) : Word := ⟨.keyword k, k.spelling⟩

/-- A mark. -/
def mark (m : Mark) : Word := ⟨.mark m, m.symbol⟩

/-- A name. -/
def name (n : String) : Word := ⟨.name, n⟩

/-- A name in double quotes. -/
def quoted (n : String) : Word := ⟨.quotedName n, "\"" ++ n ++ "\""⟩

/-- The word that a text of one token is. -/
def ofText (d : Dialect) (text : String) : Word :=
  match text.toList with
  | [] => ⟨.finish, text⟩
  | c :: cs =>
    match Lexed.read d c cs with
    | .ok x => ⟨x.lexeme, text⟩
    | .error _ => ⟨.unknown, text⟩

/-- The word comes next in a text that goes on with the given characters: no blank or comment
begins there, and the word is read and nothing more. -/
structure Stands (d : Dialect) (w : Word) (rest : List Char) : Prop where
  clear : ∀ pos, Gap.skip .blank pos (w.text.toList ++ rest) = .clear pos (w.text.toList ++ rest)
  read : ∃ c cs, w.text.toList = c :: cs ∧ c ≠ '\ufeff' ∧
    Lexed.read d c (cs ++ rest) = .ok ⟨w.lexeme, c :: cs, rest⟩
  seen : w.lexeme ≠ .finish ∧ ∀ p, w.lexeme ≠ .pragma p

end Word

/-- Where neither a blank nor a comment begins there is nothing to pass over. -/
theorem Gap.skip_clear {c : Char} {cs : List Char} (blank : isBlank c = false)
    (slash : c = '/' → cs.head? ≠ some '/' ∧ cs.head? ≠ some '*')
    (paren : c = '(' → cs.head? ≠ some '*') (pos : Nat) :
    Gap.skip .blank pos (c :: cs) = .clear pos (c :: cs) := by
  refine (Gap.skip.eq_def ..).trans ?_
  split <;> simp_all

theorem Gap.skip_blank {c : Char} (hb : isBlank c = true) (pos : Nat) (cs : List Char) :
    Gap.skip .blank pos (c :: cs) = Gap.skip .blank (pos + 1) cs := by
  have hs : c ≠ '/' := by
    rintro rfl
    exact absurd hb (by decide)
  have hp : c ≠ '(' := by
    rintro rfl
    exact absurd hb (by decide)
  refine (Gap.skip.eq_def ..).trans ?_
  split <;> simp_all

/-- Inside a comment, a character that does not close it is passed over. -/
theorem Gap.skip_block_other {c : Char} {cs : List Char}
    (other : ∀ more, c = '*' → cs = '/' :: more → False) (start pos : Nat) :
    Gap.skip (.block start) pos (c :: cs) = Gap.skip (.block start) (pos + 1) cs := by
  refine (Gap.skip.eq_def ..).trans ?_
  split <;> simp_all

/-- Inside comments that may stand in one another, so is a character that neither opens nor closes
one. -/
theorem Gap.skip_nested_other {c : Char} {cs : List Char}
    (opens : ∀ more, c = '(' → cs = '*' :: more → False)
    (closes : ∀ more, c = '*' → cs = ')' :: more → False) (start depth pos : Nat) :
    Gap.skip (.nested start depth) pos (c :: cs) = Gap.skip (.nested start depth) (pos + 1) cs := by
  refine (Gap.skip.eq_def ..).trans ?_
  split <;> simp_all

/-! ### Names and reserved words -/

/-- A name, a constant or an address may begin with the character. -/
def opensOperand (c : Char) : Bool :=
  isNameStart c || isAsciiDigit c || ['\'', '"', '%'].contains c

theorem opensOperand_of_isNameStart {c : Char} (h : isNameStart c = true) :
    opensOperand c = true := by
  rw [opensOperand, h, Bool.true_or, Bool.true_or]

/-- Neither a blank nor a comment nor the end of a longer mark begins an operand. -/
theorem clear_of_opensOperand {c : Char} (h : opensOperand c = true) :
    isBlank c = false ∧ c ∉ ['/', '(', '*', '=', '>', '\ufeff'] := by
  constructor
  · simp only [opensOperand, Bool.or_eq_true, isAsciiDigit, Bool.and_eq_true, decide_eq_true_eq,
      List.contains_eq_mem, List.mem_cons, List.not_mem_nil, or_false] at h
    obtain (name | ⟨low, high⟩) | rfl | rfl | rfl := h
    · obtain ⟨low, high⟩ := toNat_of_isNameStart name
      simp only [isBlank, Bool.or_eq_false_iff, Bool.and_eq_false_iff, decide_eq_false_iff_not,
        beq_eq_false_iff_ne]
      omega
    · have low : 48 ≤ c.toNat := low
      have high : c.toNat ≤ 57 := high
      simp only [isBlank, Bool.or_eq_false_iff, Bool.and_eq_false_iff, decide_eq_false_iff_not,
        beq_eq_false_iff_ne]
      omega
    · decide
    · decide
    · decide
  · intro listed
    simp only [List.mem_cons, List.not_mem_nil, or_false] at listed
    obtain rfl | rfl | rfl | rfl | rfl | rfl := listed
    all_goals exact absurd h (by decide)

/-- The text has the shape of a name. -/
def hasNameShape (text : String) : Bool :=
  match text.toList with
  | c :: cs => isNameStart c && cs.all isNameChar
  | [] => false

/-- The text is a name: it has the shape of one and is no reserved word. -/
def isIdentifier (d : Dialect) (text : String) : Bool :=
  hasNameShape text && (d.keyword? (capitals text.toList)).isNone

theorem hasNameShape_opens {text : String} (h : hasNameShape text = true) :
    ∃ c cs, text.toList = c :: cs ∧ isNameStart c = true := by
  unfold hasNameShape at h
  split at h
  · next c cs text =>
    rw [Bool.and_eq_true] at h
    exact ⟨c, cs, text, h.1⟩
  · cases h

theorem isIdentifier_opens {d : Dialect} {n : String} (h : isIdentifier d n = true) :
    ∃ c cs, n.toList = c :: cs ∧ isNameStart c = true := by
  unfold isIdentifier at h
  exact hasNameShape_opens ((Bool.and_eq_true _ _).mp h).1

theorem Word.stands_of_hasNameShape {d : Dialect} {text : String} {l : Lexeme} {rest : List Char}
    (shape : hasNameShape text = true) (h : NameEnds rest)
    (hl : (plainWord d text.toList rest) = ⟨l, text.toList, rest⟩)
    (seen : l ≠ .finish ∧ ∀ p, l ≠ .pragma p) : Word.Stands d ⟨l, text⟩ rest := by
  unfold hasNameShape at shape
  split at shape
  · next c cs ht =>
    rw [Bool.and_eq_true] at shape
    obtain ⟨start, more⟩ := shape
    -- A character that begins a name begins no gap, so nothing is skipped before the word.
    obtain ⟨blank, others⟩ := clear_of_opensOperand (opensOperand_of_isNameStart start)
    simp only [List.mem_cons, not_or] at others
    obtain ⟨slash, paren, -, -, -, mark, -⟩ := others
    refine ⟨fun pos => ?_, ⟨c, cs, ht, mark, ?_⟩, seen⟩
    · show Gap.skip .blank pos (text.toList ++ rest) = _
      rw [ht]
      exact Gap.skip_clear blank (absurd · slash) (absurd · paren) pos
    -- All of the word is taken, since all of it continues a name.
    · have all : ∀ e ∈ c :: cs, isNameChar e = true := by
        intro e he
        obtain rfl | he := List.mem_cons.1 he
        · exact isNameChar_of_isNameStart start
        · exact List.all_eq_true.1 more e he
      rw [ht] at hl
      unfold Lexed.read
      rw [if_pos start]
      exact congrArg Except.ok ((word_of_all d h all).trans hl)
  · cases shape

theorem Word.stands_name {d : Dialect} {n : String} {rest : List Char}
    (hn : isIdentifier d n = true) (h : NameEnds rest) : (Word.name n).Stands d rest := by
  unfold isIdentifier at hn
  rw [Bool.and_eq_true, Option.isNone_iff_eq_none] at hn
  obtain ⟨shape, free⟩ := hn
  refine stands_of_hasNameShape shape h ?_ ⟨by simp, by simp⟩
  unfold plainWord
  rw [free]

/-- A reserved word has the shape of a name, and is in capitals already. -/
theorem Keyword.shape_spelling (k : Keyword) :
    hasNameShape k.spelling = true ∧ ∀ c ∈ k.spelling.toList, c.toUpper = c := by
  have each : ∀ k ∈ all, hasNameShape k.spelling = true ∧
      (k.spelling.toList.all fun c => c.toUpper == c) = true := by decide +kernel
  obtain ⟨shape, capital⟩ := each k k.mem_all
  exact ⟨shape, fun c hc => eq_of_beq (List.all_eq_true.1 capital c hc)⟩

theorem Keyword.capitals_spelling (k : Keyword) : capitals k.spelling.toList = k.spelling := by
  unfold capitals
  rw [List.map_congr_left k.shape_spelling.2, List.map_id', String.ofList_toList]

theorem Word.stands_keyword {d : Dialect} {k : Keyword} {rest : List Char}
    (hk : d.reserves k = true) (h : NameEnds rest) : (Word.keyword k).Stands d rest := by
  refine stands_of_hasNameShape k.shape_spelling.1 h ?_ ⟨by simp, by simp⟩
  unfold plainWord
  rw [k.capitals_spelling, Dialect.keyword?_spelling hk]

/-! ### Marks -/

/-- The mark ends before the given character, or before the end of the text. -/
def Mark.endsBefore (m : Mark) (next : Option Char) : Bool :=
  match m with
  | .colon | .greater | .plus | .minus => next != some '='
  | .less => next != some '=' && next != some '>'
  | .equal => next != some '>'
  | .star => next != some '*' && next != some '='
  | .slash => next != some '/' && next != some '*' && next != some '='
  | .leftParen => next != some '*'
  | .dot => next != some '.'
  | .percent | .plusAssign | .minusAssign | .starAssign | .slashAssign => false
  | _ => true

/-- Of the marks that are tried one after the other, none is read in place of `m` where `m` may end:
one that comes before `m` in the list does not begin it, and goes on for one more character that `m`
does not end before. -/
def Mark.isReachedIn (m : Mark) : List (List Char × Lexeme) → Bool
  | [] => false
  | (text, l) :: more =>
    l.is m && text == m.symbol.toList ||
      !text.isPrefixOf m.symbol.toList && text.length ≤ m.symbol.toList.length + 1 &&
        (text.dropLast != m.symbol.toList || !m.endsBefore text.getLast?) && m.isReachedIn more

theorem Mark.isReachedIn_marks (d : Dialect) {m : Mark} {next : Option Char}
    (h : m.endsBefore next = true) : m.isReachedIn (Lexed.marks d) = true := by
  unfold Lexed.marks
  split <;> cases m <;> first | rfl | cases h

/-- A text that is longer than what it begins with by one character at most. -/
theorem prefix_of_short {text front rest : List Char} (h : text <+: front ++ rest)
    (short : text.length ≤ front.length + 1) :
    text <+: front ∨ text.dropLast = front ∧ text.getLast? = rest.head? := by
  obtain within | ⟨more, rfl⟩ := List.prefix_or_prefix_of_prefix h (List.prefix_append front rest)
  · exact .inl within
  · rw [List.prefix_append_right_inj] at h
    rw [List.length_append] at short
    match more, h, short with
    | [], _, _ => exact .inl (by simp)
    | [c], ⟨_, same⟩, _ => exact .inr ⟨List.dropLast_concat, by rw [← same, List.getLast?_concat]; rfl⟩
    | _ :: _ :: _, _, short => simp only [List.length_cons] at short; omega

theorem Mark.find?_of_isReachedIn {m : Mark} {rest : List Char} (h : m.endsBefore rest.head? = true)
    {es : List (List Char × Lexeme)} (reached : m.isReachedIn es = true) :
    es.find? (·.1.isPrefixOf (m.symbol.toList ++ rest)) = some (m.symbol.toList, .mark m) := by
  induction es with
  | nil => cases reached
  | cons e es ih =>
    obtain ⟨text, l⟩ := e
    simp only [isReachedIn, Bool.or_eq_true, Bool.and_eq_true, Bool.not_eq_true', decide_eq_true_eq,
      beq_iff_eq, bne_iff_ne] at reached
    obtain ⟨is, rfl⟩ | ⟨⟨⟨apart, short⟩, goesOn⟩, later⟩ := reached
    · have begins : m.symbol.toList.isPrefixOf (m.symbol.toList ++ rest) = true :=
        List.isPrefixOf_iff_prefix.2 (List.prefix_append ..)
      refine (List.find?_cons_of_pos (a := (m.symbol.toList, l)) begins).trans ?_
      cases l with
      | mark k => rw [eq_of_beq (show (k == m) = true from is)]
      | _ => cases is
    · refine (List.find?_cons_of_neg (a := (text, l)) fun h => ?_).trans (ih later)
      obtain begins | ⟨front, last⟩ := prefix_of_short (List.isPrefixOf_iff_prefix.1 h) short
      · exact Bool.false_ne_true (apart.symm.trans (List.isPrefixOf_iff_prefix.2 begins))
      · rw [last, ‹m.endsBefore _ = true›] at goesOn
        exact goesOn.elim (fun other => other front) nofun

/-- The characters of a mark are read as the mark, whatever follows that does not make it longer. -/
theorem Lexed.mark_symbol (d : Dialect) {m : Mark} {c : Char} {cs rest : List Char}
    (h : m.endsBefore rest.head? = true) (hm : m.symbol.toList = c :: cs) :
    mark d c (cs ++ rest) = ⟨.mark m, c :: cs, rest⟩ := by
  have found := Mark.find?_of_isReachedIn h (Mark.isReachedIn_marks d h)
  rw [hm, List.cons_append] at found
  unfold mark
  rw [found]
  simp
/-- The character begins neither a name nor a literal nor an annotation, and is no blank. -/
def opensMark (c : Char) : Bool :=
  !(isNameStart c || isAsciiDigit c || isBlank c || ['\'', '"', '%', '\x7b', '\ufeff'].contains c)

theorem Mark.opensMark {m : Mark} {c : Char} {cs : List Char} (hm : m.symbol.toList = c :: cs)
    (h : m ≠ .percent) : Plc.opensMark c = true := by
  have all : m = .percent ∨ m.symbol.toList.head?.all Plc.opensMark = true := by
    cases m <;> decide
  rw [hm] at all
  exact all.resolve_left h

/-- No comment begins with a mark. -/
theorem Mark.begins_no_comment {m : Mark} {c : Char} {cs rest : List Char}
    (h : m.endsBefore rest.head? = true) (hm : m.symbol.toList = c :: cs) :
    (c = '/' → (cs ++ rest).head? ≠ some '/' ∧ (cs ++ rest).head? ≠ some '*') ∧
      (c = '(' → (cs ++ rest).head? ≠ some '*') := by
  cases m <;> simp only [Mark.endsBefore, Bool.false_eq_true] at h
  all_goals
    rw [Mark.symbol] at hm
    simp at hm
    obtain ⟨rfl, rfl⟩ := hm
    simp
  case slash =>
    simp only [Bool.and_eq_true, bne_iff_ne] at h
    exact ⟨h.1.1, h.1.2⟩
  case leftParen => simpa using h

/-- A mark stands where no comment begins with it and it is read as it is written. -/
theorem Word.stands_symbol {d : Dialect} {m : Mark} {c : Char} {cs rest : List Char}
    (hm : m.symbol.toList = c :: cs) (known : m ≠ .percent)
    (slash : c = '/' → (cs ++ rest).head? ≠ some '/' ∧ (cs ++ rest).head? ≠ some '*')
    (paren : c = '(' → (cs ++ rest).head? ≠ some '*')
    (whole : Lexed.mark d c (cs ++ rest) = ⟨.mark m, c :: cs, rest⟩) :
    (Word.mark m).Stands d rest := by
  have opens := Mark.opensMark hm known
  simp only [opensMark, Bool.not_eq_true', Bool.or_eq_false_iff, List.contains_eq_mem,
    decide_eq_false_iff_not, List.mem_cons, List.not_mem_nil, or_false, not_or] at opens
  obtain ⟨⟨⟨name, digit⟩, blank⟩, narrow, wide, percent, brace, byteOrder⟩ := opens
  refine ⟨fun pos => ?_, ⟨c, cs, hm, byteOrder, ?_⟩, by simp [Word.mark]⟩
  · show Gap.skip .blank pos (m.symbol.toList ++ rest) = .clear pos (m.symbol.toList ++ rest)
    rw [hm]
    exact Gap.skip_clear blank slash paren pos
  · unfold Lexed.read
    rw [if_neg (by simp [name]), if_neg (by simp [digit]), if_neg narrow, if_neg wide,
      if_neg percent, if_neg (by simp [brace])]
    exact congrArg Except.ok whole

theorem Word.stands_mark (d : Dialect) {m : Mark} {rest : List Char}
    (h : m.endsBefore rest.head? = true) : (Word.mark m).Stands d rest := by
  obtain ⟨c, cs, hm⟩ : ∃ c cs, m.symbol.toList = c :: cs := by
    cases m <;> exact ⟨_, _, rfl⟩
  have known : m ≠ .percent := by
    rintro rfl
    cases h
  obtain ⟨slash, paren⟩ := Mark.begins_no_comment h hm
  exact stands_symbol hm known slash paren (mark_symbol d h hm)

theorem Lexed.upTo?_of_not_mem {close : Char} {inner : List Char} (h : close ∉ inner)
    (rest : List Char) : upTo? close (inner ++ close :: rest) = some (inner, rest) := by
  have others : ∀ c ∈ inner, (c != close) = true :=
    fun c hc => bne_iff_ne.2 fun same => h (same ▸ hc)
  unfold upTo?
  rw [List.dropWhile_append_of_pos others, List.takeWhile_append_of_pos others]
  simp

theorem Word.stands_quoted {d : Dialect} {n : String} (hd : d.quotedNames = true)
    (hn : '"' ∉ n.toList) (rest : List Char) : (Word.quoted n).Stands d rest := by
  have text : (Word.quoted n).text.toList = '"' :: (n.toList ++ ['"']) := by
    simp [Word.quoted]
  refine ⟨fun pos => ?_, ⟨'"', n.toList ++ ['"'], text, by decide, ?_⟩, by simp [Word.quoted]⟩
  · rw [text]
    exact Gap.skip_clear (by decide) (by simp) (by simp) pos
  · unfold Lexed.read
    rw [if_neg (by decide), if_neg (by decide), if_neg (by decide), if_pos rfl, if_pos hd,
      List.append_assoc, List.singleton_append]
    unfold quotedName
    rw [upTo?_of_not_mem hn]
    simp [Word.quoted]

/-! ### Texts -/

/-- The word as a token, where it stands. -/
def Word.token (w : Word) (pos : Nat) : Token :=
  ⟨w.lexeme, w.text, ⟨pos, pos + w.text.toList.length, Nat.le_add_right ..⟩⟩

/-- A word that stands in front of a text is its next token. -/
theorem Word.Stands.next {d : Dialect} {w : Word} {rest : List Char} (h : w.Stands d rest) (pos : Nat) :
    (⟨pos, w.text.toList ++ rest⟩ : Scanner).next d =
      .ok (w.token pos, ⟨pos + w.text.toList.length, rest⟩) := by
  obtain ⟨c, cs, text, -, read⟩ := h.read
  have clear : Gap.skip .blank pos (w.text.toList ++ rest) = .clear pos (c :: (cs ++ rest)) :=
    (h.clear pos).trans (congrArg (fun front => Gap.clear pos (front ++ rest)) text)
  rw [← text] at read
  have next := Scanner.next_eq_ok_iff.2 (.token (s := ⟨pos, w.text.toList ++ rest⟩) clear read)
  rwa [String.ofList_toList] at next

/-- Where no byte order mark comes first, a text is cut from its first character on. -/
theorem Scanner.start_plain {source : List Char} (plain : source.head? ≠ some '\ufeff') :
    Scanner.start source = ⟨0, source⟩ := by
  unfold Scanner.start
  split
  · exact absurd rfl plain
  · rfl

/-- The text is cut into words, blanks and comments left out, up to the characters that are left. -/
inductive Cut (d : Dialect) : List Char → List Word → List Char → Prop
  | done (rest : List Char) : Cut d rest [] rest
  | blank {c : Char} {cs rest : List Char} {ws : List Word} (hc : isBlank c = true)
      (tail : Cut d cs ws rest) : Cut d (c :: cs) ws rest
  | word {w : Word} {cs rest : List Char} {ws : List Word} (hw : w.Stands d cs)
      (tail : Cut d cs ws rest) : Cut d (w.text.toList ++ cs) (w :: ws) rest

namespace Cut

variable {d : Dialect}

/-- One word comes first. -/
theorem single {w : Word} {rest : List Char} (h : w.Stands d rest) :
    Cut d (w.text.toList ++ rest) [w] rest :=
  .word h (.done rest)

theorem append {cs mid rest : List Char} {ws ws' : List Word} (h : Cut d cs ws mid)
    (h' : Cut d mid ws' rest) : Cut d cs (ws ++ ws') rest := by
  induction h with
  | done => exact h'
  | blank hc _ ih => exact .blank hc (ih h')
  | word hw _ ih => exact .word hw (ih h')

/-- The tokens of a text that is cut into words are these words, and the end of the text. -/
theorem run {cs rest : List Char} {ws : List Word} (h : Cut d cs ws rest) (hr : rest = []) :
    ∀ (n pos : Nat), cs.length < n → ∃ ts fin, (⟨pos, cs⟩ : Scanner).run d n = (ts ++ [fin], none) ∧
      ts.map Token.word = ws ∧ fin.lexeme = .finish ∧
      ∀ t ∈ ts, ∀ p, t.lexeme ≠ .pragma p := by
  -- Induction on the cutting; the fuel is enough, since each word has a character.
  induction h with
  | done rest =>
    subst hr
    intro n pos hn
    cases n with
    | zero => cases hn
    | succ n => exact ⟨[], Scanner.finish pos, rfl, rfl, rfl, fun t ht => by cases ht⟩
  -- A blank is passed over in front of the next token.
  | @blank c cs rest ws hc _ ih =>
    intro n pos hn
    obtain ⟨ts, fin, hrun, rest⟩ := ih hr n (pos + 1) (by simp at hn; omega)
    refine ⟨ts, fin, ?_, rest⟩
    rw [← hrun]
    cases n with
    | zero => cases hn
    | succ n => simp only [Scanner.run, Scanner.next, Gap.skip_blank hc]
  | @word w cs rest ws hw _ ih =>
    intro n pos hn
    obtain ⟨c, cs', ht, -, hread⟩ := hw.read
    cases n with
    | zero => cases hn
    | succ n =>
      have shorter : cs.length < n := by
        rw [ht] at hn
        simp only [List.cons_append, List.length_cons, List.length_append] at hn
        omega
      obtain ⟨ts, fin, hrun, words, last, plain⟩ :=
        ih hr n (pos + w.text.toList.length) shorter
      refine ⟨w.token pos :: ts, fin, ?_, by rw [List.map_cons, words]; rfl, last, ?_⟩
      · rw [Scanner.run, hw.next]
        dsimp only
        -- A word is never the end of the text, so the scanner goes on.
        have going : (w.token pos).lexeme.isFinish = false := by
          have seen : (w.token pos).lexeme ≠ .finish := hw.seen.1
          cases hl : (w.token pos).lexeme with
          | finish => exact absurd hl seen
          | _ => rfl
        rw [going, hrun]
        rfl
      · intro t ht
        obtain rfl | ht := List.mem_cons.1 ht
        · exact hw.seen.2
        · exact plain t ht

/-- The tokens of a text that is cut into words are these words, and the end of the text. -/
theorem scan {source : List Char} {ws : List Word} (h : Cut d source ws [])
    (hs : source.head? ≠ some '\ufeff') : ∃ ts fin, Plc.scan d source = (ts ++ [fin], none) ∧
      ts.map Token.word = ws ∧ fin.lexeme = .finish ∧ ∀ t ∈ ts, ∀ p, t.lexeme ≠ .pragma p := by
  unfold Plc.scan
  rw [Scanner.start_plain hs]
  exact h.run rfl _ 0 (Nat.lt_succ_self _)

end Cut

end Plc
