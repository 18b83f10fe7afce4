/-
What stands between tokens does not matter.

A blank ends every token, whatever the token is, and after it blanks and comments are
passed over.  So the tokens of a text, written with other gaps between them, are cut
into the same words again.

* `Gap.Fills.skip` — blanks and complete comments are passed over, whatever comes next;
* `Lexed.read_blank` — a token alone is read the same before a blank;
* `Scans.spaced` — the tokens of a run, read again one gap after another;
* `tokens_separated` — the words of a text with other blanks and comments between them.
-/
import Plc.Proofs.Token.Tiling

namespace Plc

open Text

/-! ### Passing over a gap -/

namespace Gap

/-- A comment that runs to the end of its line is passed over. -/
theorem skip_line {text : List Char} (one : '\n' ∉ text) (q : Nat) (tail : List Char) :
    skip .line q (text ++ '\n' :: tail) = skip .blank (q + text.length + 1) tail := by
  induction text generalizing q with
  | nil => rfl
  | cons c text ih =>
    obtain ⟨other, one⟩ := not_or.1 (mt List.mem_cons.2 one)
    show skip (if c = '\n' then .blank else .line) (q + 1) (text ++ '\n' :: tail) = _
    rw [if_neg (Ne.symm other), ih one, List.length_cons]
    congr 1
    omega

/-- So is a comment to the end of the text. -/
theorem skip_lastLine {text : List Char} (one : '\n' ∉ text) (q : Nat) :
    skip .line q text = .clear (q + text.length) [] := by
  induction text generalizing q with
  | nil => rfl
  | cons c text ih =>
    obtain ⟨other, one⟩ := not_or.1 (mt List.mem_cons.2 one)
    show skip (if c = '\n' then .blank else .line) (q + 1) text = _
    rw [if_neg (Ne.symm other), ih one, List.length_cons]
    congr 1
    omega

/-- A comment is passed over up to the first mark that closes it. -/
theorem skip_block {text : List Char} (first : ¬ ['*', '/'] <:+: text) (start q : Nat)
    (tail : List Char) : skip (.block start) q (text ++ '*' :: '/' :: tail) =
      skip .blank (q + text.length + 2) tail := by
  induction text generalizing q with
  | nil => rfl
  | cons c text ih =>
    have later : ¬ ['*', '/'] <:+: text := fun inside => first (List.infix_cons_iff.2 (.inr inside))
    have here : ∀ more, c = '*' → text ++ '*' :: '/' :: tail = '/' :: more → False := by
      rintro more rfl same
      cases text with
      | nil => cases same
      | cons e text =>
        cases same
        exact first (List.infix_cons_iff.2 (.inl ⟨text, rfl⟩))
    rw [List.cons_append, skip_block_other here, ih later, List.length_cons]
    congr 1
    omega

/-- Comments are passed over inside a comment, and then it closes. -/
theorem Inside.skip {text : List Char} (h : Inside text) (start depth q : Nat) (tail : List Char) :
    Gap.skip (.nested start depth) q (text ++ '*' :: ')' :: tail) =
      Gap.skip (match depth with
        | 0 => .blank
        | d + 1 => .nested start d) (q + text.length + 2) tail := by
  -- The depth counts the comments that are open around this one, so it is general.
  induction h generalizing depth q tail with
  | nil =>
    cases depth with
    | zero | succ d => rfl
  | @char c text opens closes more ih =>
    -- the two characters that are looked at stand in front of the closing mark or begin with it
    have two (a b : Char) (other : ¬ [a, b] <+: c :: (text ++ ['*', ')'])) (more : List Char)
        (ha : c = a) (same : text ++ '*' :: ')' :: tail = b :: more) : False := by
      refine other (two_prefix_iff.2 ⟨ha, ?_⟩)
      cases text with
      | nil =>
        cases same
        exact ⟨_, rfl⟩
      | cons e text =>
        cases same
        exact ⟨_, rfl⟩
    rw [List.cons_append, skip_nested_other (two '(' '*' opens) (two '*' ')' closes), ih,
      List.length_cons]
    congr 1
    omega
  | @comment inner text inside more ihInner ih =>
    have parts : '(' :: '*' :: (inner ++ '*' :: ')' :: text) ++ '*' :: ')' :: tail =
        '(' :: '*' :: (inner ++ '*' :: ')' :: (text ++ '*' :: ')' :: tail)) := by simp
    rw [parts]
    show Gap.skip (.nested start (depth + 1)) (q + 2) _ = _
    rw [ihInner, ih]
    congr 1
    simp only [List.length_cons, List.length_append]
    omega

/-- Blanks and comments are passed over up to where nothing more is. -/
theorem Fills.skip {rest gap : List Char} (h : Fills rest gap)
    (clear : ∀ q, Gap.skip .blank q rest = .clear q rest) (q : Nat) :
    Gap.skip .blank q (gap ++ rest) = .clear (q + gap.length) rest := by
  -- One case for each kind of gap; the rest of the gap is passed over from where this kind ends.
  induction h generalizing q with
  | nil => exact clear q
  | blank hc _ ih =>
    rw [List.cons_append, skip_blank hc, ih, List.length_cons]
    congr 1
    omega
  | @line text gap one _ ih =>
    rw [List.cons_append, List.cons_append, List.append_assoc, List.cons_append]
    show Gap.skip .line (q + 2) _ = _
    rw [skip_line one, ih]
    congr 1
    simp only [List.length_cons, List.length_append]
    omega
  | lastLine one ends =>
    subst ends
    rw [List.append_nil]
    show Gap.skip .line (q + 2) _ = _
    rw [skip_lastLine one]
    congr 1
    simp only [List.length_cons]
    omega
  | @block text gap first _ ih =>
    rw [List.cons_append, List.cons_append, List.append_assoc, List.cons_append, List.cons_append]
    show Gap.skip (.block q) (q + 2) _ = _
    rw [skip_block first, ih]
    congr 1
    simp only [List.length_cons, List.length_append]
    omega
  | @nested text gap inside _ ih =>
    rw [List.cons_append, List.cons_append, List.append_assoc, List.cons_append, List.cons_append]
    show Gap.skip (.nested q 0) (q + 2) _ = _
    rw [inside.skip, ih]
    congr 1
    simp only [List.length_cons, List.length_append]
    omega

/-- Where a token stands alone, it also stands before a blank. -/
theorem clear_append {text rest : List Char} {c : Char} {cs : List Char} (same : text = c :: cs)
    (clear : Gap.skip .blank 0 text = .clear 0 text) (blank : ∀ e ∈ rest.head?, isBlank e = true)
    (q : Nat) : Gap.skip .blank q (text ++ rest) = .clear q (text ++ rest) := by
  subst same
  -- whatever is passed over is gone
  have shorter {mode : Mode} {pos : Nat} {tail : List Char} (le : tail.length ≤ cs.length) :
      Gap.skip mode pos tail ≠ .clear 0 (c :: cs) := by
    intro passed
    have := (Gap.skip_suffix passed).length_le
    rw [List.length_cons] at this
    omega
  have hc : isBlank c = false := by
    by_contra hb
    rw [Bool.not_eq_false] at hb
    rw [skip_blank hb] at clear
    exact shorter (Nat.le_refl _) clear
  have next (e : Char) (he : isBlank e = false)
      (opens : ∀ tail, cs = e :: tail → False) : (cs ++ rest).head? ≠ some e := by
    intro head
    cases cs with
    | cons b tail =>
      cases head
      exact opens tail rfl
    | nil =>
      rw [blank e head] at he
      cases he
  refine skip_clear hc (fun slash => ⟨next '/' rfl ?_, next '*' rfl ?_⟩)
    (fun paren => next '*' rfl ?_) q
  · rintro tail rfl
    subst slash
    exact shorter (Nat.le_succ _) (clear.symm ▸ rfl : Gap.skip .line 2 tail = _)
  · rintro tail rfl
    subst slash
    exact shorter (Nat.le_succ _) (clear.symm ▸ rfl : Gap.skip (.block 0) 2 tail = _)
  · rintro tail rfl
    subst paren
    exact shorter (Nat.le_succ _) (clear.symm ▸ rfl : Gap.skip (.nested 0 0) 2 tail = _)

end Gap

/-! ### One token before a blank -/

namespace Lexed

/-- A blank ends every token. -/
theorem ends_of_blank {rest : List Char} (blank : ∀ c ∈ rest.head?, isBlank c = true) : Ends rest :=
  fun c hc => List.mem_append_left _ (mem_blanks (blank c hc))

/-- No mark has a blank in it. -/
theorem not_blank_of_marks (d : Dialect) {c : Char} (blank : isBlank c = true) :
    ∀ m ∈ marks d, c ∉ m.1 := by
  have all : ∀ m ∈ compoundMarks ++ plainMarks, m.1.all (!isBlank ·) = true := by decide
  intro m hm inside
  have listed : m ∈ compoundMarks ++ plainMarks := by
    unfold marks at hm
    split at hm
    · exact hm
    · exact List.mem_append_right _ hm
  have other := List.all_eq_true.1 (all m listed) c inside
  rw [blank] at other
  cases other

/-- A closed token is read again where a blank follows it, unless a digit that is not one of ten
came next. -/
theorem read_blank {d : Dialect} {c : Char} {cs : List Char} {x : Lexed}
    (hr : read d c cs = .ok x) (closed : isOpen x.lexeme = false)
    (digit : ∀ e ∈ x.rest.head?, isDigit e = true → isAsciiDigit e = true) {rest : List Char}
    (blank : ∀ e ∈ rest.head?, isBlank e = true) :
    ∃ text, x.text = c :: text ∧ read d c (text ++ rest) = .ok (x.before rest) := by
  -- The token is read alone first, and then in front of the blank.
  obtain ⟨text, ht, alone⟩ := read_kept hr ⟨List.nil_prefix, nofun, fun _ => digit⟩
  rw [List.append_nil] at alone
  have ends := ends_of_blank blank
  refine ⟨text, ht, ?_⟩
  refine read_append d alone closed ends.apart (fun _ => ends) fun same => ?_
  rw [same]
  exact mark_append_rest d (fun e he => not_blank_of_marks d (blank e he)) c text

end Lexed

/-! ### All tokens -/

/-- What may stand between any two tokens: a blank, and then blanks and comments that close. -/
structure IsSeparator (gap : List Char) : Prop where
  blank : ∃ c ∈ gap.head?, isBlank c = true
  complete : ∀ rest, Gap.Fills rest gap

/-- The characters of some tokens, with a gap before the first and one after each. -/
def spaced (first : List Char) (ts : List Token) (gaps : List (List Char)) : List Char :=
  first ++ (List.zipWith (fun t gap => t.text.toList ++ gap) ts gaps).flatten

theorem spaced_cons (first : List Char) (t : Token) (ts : List Token) (gap : List Char)
    (gaps : List (List Char)) :
    spaced first (t :: ts) (gap :: gaps) = first ++ (t.text.toList ++ spaced gap ts gaps) := by
  simp [spaced]

/-- The text begins with a blank if the first gap does. -/
theorem IsSeparator.spaced {first : List Char} (h : IsSeparator first) (ts : List Token)
    (gaps : List (List Char)) : ∃ c ∈ (spaced first ts gaps).head?, isBlank c = true := by
  obtain ⟨c, hc, blank⟩ := h.blank
  obtain ⟨tail, rfl⟩ := List.head?_eq_some_iff.1 hc
  exact ⟨c, rfl, blank⟩

/-- The lexeme is neither unknown nor malformed. -/
def Lexeme.isKnown : Lexeme → Bool
  | .unknown | .malformed _ => false
  | _ => true

theorem Lexeme.isKnown_iff {l : Lexeme} :
    l.isKnown = true ↔ l ≠ .unknown ∧ ∀ e, l ≠ .malformed e := by
  cases l <;> simp [isKnown]

/-- A token is found again after a gap, where a blank follows it. -/
theorem Scanner.next_separated {d : Dialect} {s s' : Scanner} {t : Token}
    (h : s.next d = .ok (t, s')) (goes : t.lexeme.isFinish = false) (known : t.lexeme.isKnown = true)
    (digit : ∀ e ∈ s'.rest.head?, isDigit e = true → isAsciiDigit e = true) {gap rest : List Char}
    (separator : IsSeparator gap) (blank : ∃ c ∈ rest.head?, isBlank c = true) (q : Nat) :
    ∃ u q', (⟨q, gap ++ (t.text.toList ++ rest)⟩ : Scanner).next d = .ok (u, ⟨q', rest⟩) ∧
      u.word = t.word := by
  obtain ⟨-, well⟩ := Lexeme.isKnown_iff.1 known
  obtain ⟨before, c, cs, x, -, -, stays, hx, word, -, -, rfl⟩ := Scanner.next_eq h goes (well _)
  obtain ⟨b, hb, isBlank_b⟩ := blank
  have blank : ∀ e ∈ rest.head?, isBlank e = true := by
    intro e he
    rw [Option.mem_def, Option.mem_def.1 hb] at he
    cases he
    exact isBlank_b
  have text : t.text.toList = x.text := by
    rw [show t.text = String.ofList x.text from congrArg Word.text word, String.toList_ofList]
  rw [show t.lexeme = x.lexeme from congrArg Word.lexeme word] at well
  -- The token is read again before a blank, as it was closed.
  obtain ⟨inner, ht, again⟩ := Lexed.read_blank hx (Lexed.isOpen_of_well well) digit blank
  obtain ⟨-, parts⟩ := Lexed.read_splits d c cs x hx
  -- Its characters begin no blank and no comment, so the gap ends right before them.
  have alone : Gap.skip .blank 0 x.text = .clear 0 x.text :=
    stays .blank 0 x.text rfl (by simp [ht]) ⟨x.rest, parts⟩
  have clear (q : Nat) := Gap.clear_append ht alone blank q
  have passed := (separator.complete (x.text ++ rest)).skip clear q
  rw [ht, List.cons_append] at passed
  have next : Next d ⟨q, gap ++ (t.text.toList ++ rest)⟩ _ ⟨_, rest⟩ :=
    .token (x := x.before rest) (by rw [text, ht]; exact passed) again
  exact ⟨_, _, next_eq_ok_iff.2 next, word.symm⟩

/-- Tokens that were read from a text are read again with other gaps between them. -/
theorem Scans.spaced {d : Dialect} {s s' m : Scanner} {ts : List Token} {fin : Token}
    (h : Scans d s ts s') (last : s'.next d = .ok (fin, m)) (ends : fin.lexeme.isFinish = true)
    (known : ∀ t ∈ ts, t.lexeme.isKnown = true) {first : List Char} {gaps : List (List Char)}
    (separator : IsSeparator first) (separators : ∀ gap ∈ gaps, IsSeparator gap)
    (count : gaps.length = ts.length) (q : Nat) :
    ∃ us q' gap, Scans d ⟨q, spaced first ts gaps⟩ us ⟨q', gap⟩ ∧ us.map Token.word = ts.map Token.word ∧
      IsSeparator gap := by
  induction h generalizing first gaps q with
  | nil =>
    obtain rfl := List.eq_nil_of_length_eq_zero count
    refine ⟨[], q, first, ?_, rfl, separator⟩
    simpa [Plc.spaced] using Scans.nil _
  | @cons s s₁ s₂ t ts next goes rest ih =>
    obtain ⟨gap, gaps, rfl⟩ := List.exists_cons_of_length_eq_add_one count
    obtain ⟨knownFirst, known⟩ := List.forall_mem_cons.1 known
    obtain ⟨here, separators⟩ := List.forall_mem_cons.1 separators
    -- A digit that is not one of ten would be an unknown token, and there is none.
    have digit := rest.not_otherDigit last ends fun t ht => (Lexeme.isKnown_iff.1 (known t ht)).1
    obtain ⟨u, q₁, again, word⟩ := Scanner.next_separated next goes knownFirst digit separator
      (here.spaced ts gaps) q
    obtain ⟨us, q₂, after, scans, words, ended⟩ :=
      ih last known here separators (Nat.succ.inj count) q₁
    have lexeme : u.lexeme = t.lexeme := congrArg Word.lexeme word
    refine ⟨u :: us, q₂, after, ?_, ?_, ended⟩
    · rw [spaced_cons]
      exact .cons again (lexeme ▸ goes) scans
    · rw [List.map_cons, List.map_cons, word, words]

/-- Blanks and comments between tokens do not matter: the tokens of a text, all of them well formed
and known, written with any separators before, between and after them, are cut into the same
words in the same order. -/
theorem tokens_separated {d : Dialect} {source : List Char} {ts : List Token} {fin : Token}
    (cut : tokens d source = .ok (ts ++ [fin])) (known : ∀ t ∈ ts, t.lexeme.isKnown = true)
    {first : List Char} {gaps : List (List Char)} (separator : IsSeparator first)
    (separators : ∀ gap ∈ gaps, IsSeparator gap) (count : gaps.length = ts.length) :
    ∃ us, tokens d (spaced first ts gaps) =
        .ok (us ++ [Scanner.finish (spaced first ts gaps).length]) ∧
      us.map Token.word = ts.map Token.word := by
  obtain ⟨m, m', scans, last, ends⟩ := scans_of_tokens cut
  obtain ⟨us, q, gap, again, words, ended⟩ := scans.spaced last ends known separator separators count 0
  obtain ⟨c, hc, blank⟩ := separator.spaced ts gaps
  -- The first gap begins with a blank, so there is no byte order mark to be dropped.
  have start : Scanner.start (spaced first ts gaps) = ⟨0, spaced first ts gaps⟩ := by
    refine Scanner.start_plain fun same => ?_
    cases hc.symm.trans same
    exact absurd blank (by decide)
  have comment : ∀ u ∈ us, u.lexeme ≠ .malformed .unterminatedComment := by
    intro u hu same
    have listed : u.word ∈ ts.map Token.word := words ▸ List.mem_map_of_mem hu
    obtain ⟨t, ht, word⟩ := List.mem_map.1 listed
    have lexeme : t.lexeme = u.lexeme := congrArg Word.lexeme word
    exact (Lexeme.isKnown_iff.1 (known t ht)).2 _ (lexeme.trans same)
  have passed : (⟨q, gap⟩ : Scanner).next d =
      .ok (Scanner.finish (q + gap.length), ⟨q + gap.length, []⟩) := by
    have skipped := (ended.complete []).skip (fun _ => rfl) q
    rw [List.append_nil] at skipped
    exact Scanner.next_eq_ok_iff.2 (.ended skipped)
  have short := again.shorter comment
  have run := again.run_last passed rfl ((spaced first ts gaps).length + 1)
    (by dsimp only at short; omega)
  -- The text was read to its end, so the last token stands there.
  have place : q + gap.length = (spaced first ts gaps).length := by
    obtain ⟨u, parts, pos, -⟩ := again.again comment
    have whole := congrArg List.length parts
    rw [List.length_append] at whole
    dsimp only at pos whole
    omega
  refine ⟨us, ?_, words⟩
  unfold tokens scan
  rw [start, run, place]

/-- The tokens of `a:=T#2s;`. -/
def shortTokens : List Token := [
  ⟨.name, "a", ⟨0, 1, by decide⟩⟩, ⟨.mark .assign, ":=", ⟨1, 3, by decide⟩⟩,
  ⟨.duration "2s", "T#2s", ⟨3, 7, by decide⟩⟩, ⟨.mark .semicolon, ";", ⟨7, 8, by decide⟩⟩]

/-- A comment to the end of its line, one that another may not stand in, one that another stands in,
and a wide space. -/
def mixedGaps : List (List Char) :=
  [" // b\n\t".toList, "\n/***/".toList, "\r(*c(*d*)*)".toList, "\u3000".toList]

theorem mixedGaps_separate : ∀ gap ∈ mixedGaps, IsSeparator gap := by
  have inner : Gap.Inside "c(*d*)".toList :=
    .char (by decide) (by decide)
      (@Gap.Inside.comment ['d'] [] (.char (by decide) (by decide) .nil) .nil)
  refine List.forall_mem_cons.2 ⟨⟨⟨' ', rfl, rfl⟩, fun rest => ?_⟩, ?_⟩
  · exact .blank rfl (@Gap.Fills.line rest " b".toList ['\t'] (by decide) (.blank rfl .nil))
  refine List.forall_mem_cons.2 ⟨⟨⟨'\n', rfl, rfl⟩, fun rest => ?_⟩, ?_⟩
  · exact .blank rfl (@Gap.Fills.block rest ['*'] [] (by decide) .nil)
  refine List.forall_mem_cons.2 ⟨⟨⟨'\r', rfl, rfl⟩, fun rest => ?_⟩, ?_⟩
  · exact .blank rfl (@Gap.Fills.nested rest "c(*d*)".toList [] inner .nil)
  exact List.forall_mem_singleton.2 ⟨⟨'\u3000', rfl, rfl⟩, fun rest => .blank rfl .nil⟩

/-- The tokens of `a:=T#2s;` are found again in a text with gaps of all kinds. -/
theorem tokens_separated_short :
    tokens .generic "a:=T#2s;".toList = .ok (shortTokens ++ [Scanner.finish 8]) ∧
    (∀ t ∈ shortTokens, t.lexeme.isKnown = true) ∧ IsSeparator [' '] ∧
    (∀ gap ∈ mixedGaps, IsSeparator gap) ∧ mixedGaps.length = shortTokens.length ∧
    spaced [' '] shortTokens mixedGaps =
      " a // b\n\t:=\n/***/T#2s\r(*c(*d*)*);\u3000".toList ∧
    ∃ us, tokens .generic (spaced [' '] shortTokens mixedGaps) =
        .ok (us ++ [Scanner.finish (spaced [' '] shortTokens mixedGaps).length]) ∧
      us.map Token.word = shortTokens.map Token.word := by
  have cut : tokens .generic "a:=T#2s;".toList = .ok (shortTokens ++ [Scanner.finish 8]) := rfl
  have known : ∀ t ∈ shortTokens, t.lexeme.isKnown = true := by decide
  have space : IsSeparator [' '] := ⟨⟨' ', rfl, rfl⟩, fun rest => .blank rfl .nil⟩
  exact ⟨cut, known, space, mixedGaps_separate, rfl, by decide,
    tokens_separated cut known space mixedGaps_separate rfl⟩

end Plc
