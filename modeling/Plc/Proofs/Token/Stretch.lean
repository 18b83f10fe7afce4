/-
The tokens of a stretch of text.

A stretch that begins and ends where tokens of a text do is cut into the same words
when it is read as a text of its own.

* `Scans` — reading some tokens takes a scanner from one place to another;
* `Scans.again` — the same words are read when the text is cut off behind them;
* `tokens_stretch` — the words of a stretch of a text.
-/
import Plc.Proofs.RoundTrip.Word
import Plc.Proofs.Token.Kept

namespace Plc

open Text Lexed

/-! ### Blanks and comments -/

namespace Gap

/-- The mode of reading, without the place where a comment was opened. -/
def Mode.bare : Mode → Mode
  | .blank => .blank
  | .line => .line
  | .block _ => .block 0
  | .nested _ depth => .nested 0 depth

/-- From any place, the blanks and comments are passed over in front of every part of the rest that
has a character. -/
def Skips (mode : Mode) (gap rest : List Char) : Prop :=
  ∀ (mode' : Mode) (q : Nat) (kept : List Char), mode'.bare = mode.bare → kept ≠ [] →
    kept <+: rest → skip mode' q (gap ++ kept) = .clear (q + gap.length) kept

theorem head?_kept {gap kept rest : List Char} (some_char : kept ≠ []) (h : kept <+: rest) :
    (gap ++ kept).head? = (gap ++ rest).head? := by
  obtain ⟨c, cs, rfl⟩ := List.exists_cons_of_ne_nil some_char
  obtain ⟨more, rfl⟩ := h
  cases gap with
  | nil | cons e gap => rfl

/-- Passing over a gap leads to the rest, and so it does from any other place; nothing more is passed
over there. -/
def SkipsTo (mode : Mode) (pos : Nat) (cs : List Char) (pos' : Nat) (rest : List Char) : Prop :=
  ∃ gap, cs = gap ++ rest ∧ pos' = pos + gap.length ∧ Skips mode gap rest ∧ Skips .blank [] rest

/-- One step over some characters, after which the reading goes on in another mode.  The step may look
at the character behind them, which is the same for all kept parts. -/
theorem SkipsTo.step {mode next : Mode} {pos pos' : Nat} {cs rest : List Char} (front : List Char)
    (h : SkipsTo next (pos + front.length) cs pos' rest)
    (step : ∀ (mode' : Mode) (q : Nat) (tail : List Char), mode'.bare = mode.bare →
      tail.head? = cs.head? → ∃ next', next'.bare = next.bare ∧
        skip mode' q (front ++ tail) = skip next' (q + front.length) tail) :
    SkipsTo mode pos (front ++ cs) pos' rest := by
  obtain ⟨gap, rfl, rfl, skips, stop⟩ := h
  refine ⟨front ++ gap, (List.append_assoc _ _ _).symm, ?_, ?_, stop⟩
  · rw [List.length_append, Nat.add_assoc]
  · intro mode' q kept same some_char longer
    obtain ⟨next', same', go⟩ := step mode' q (gap ++ kept) same (head?_kept some_char longer)
    rw [List.append_assoc, go, skips next' _ kept same' some_char longer, List.length_append,
      Nat.add_assoc]

/-- Where neither a blank nor a comment begins, nothing is passed over, whatever part of the rest is
kept: it has the same second character or none. -/
theorem skips_clear {c : Char} {cs : List Char} (slash : ∀ tail, c = '/' → cs = '/' :: tail → False)
    (star : ∀ tail, c = '/' → cs = '*' :: tail → False)
    (paren : ∀ tail, c = '(' → cs = '*' :: tail → False) (blank : isBlank c = false) :
    Skips .blank [] (c :: cs) := by
  intro mode' q kept same some_char longer
  cases mode' <;> cases same
  obtain ⟨e, kept, rfl⟩ := List.exists_cons_of_ne_nil some_char
  obtain ⟨more, same⟩ := longer
  cases same
  have next (e : Char) (he : kept.head? = some e) : ∃ tail, kept ++ more = e :: tail := by
    cases kept with
    | nil => cases he
    | cons e kept =>
      cases he
      exact ⟨_, rfl⟩
  refine skip_clear blank (fun hc => ⟨fun he => ?_, fun he => ?_⟩) (fun hc he => ?_) q
  · obtain ⟨tail, same⟩ := next _ he
    exact slash tail hc same
  · obtain ⟨tail, same⟩ := next _ he
    exact star tail hc same
  · obtain ⟨tail, same⟩ := next _ he
    exact paren tail hc same

/-- What is passed over can be passed over again; where it ends there is nothing to pass over. -/
theorem skip_again {mode : Mode} {pos pos' : Nat} {cs rest : List Char}
    (h : skip mode pos cs = .clear pos' rest) (some_char : rest ≠ []) :
    SkipsTo mode pos cs pos' rest := by
  -- Induction along the reading. In each case the first characters are passed over by one step in
  -- any mode with the same bare mode, whatever place it remembers.
  fun_induction skip mode pos cs with
  -- A comment opens: one up to the line end, one that does not nest, one that does.
  | case1 pos cs ih =>
    refine .step ['/', '/'] (ih h) fun mode' q tail same _ => ?_
    cases mode' <;> cases same
    exact ⟨.line, rfl, rfl⟩
  | case2 pos cs ih =>
    refine .step ['/', '*'] (ih h) fun mode' q tail same _ => ?_
    cases mode' <;> cases same
    exact ⟨.block q, rfl, rfl⟩
  | case3 pos cs ih =>
    refine .step ['(', '*'] (ih h) fun mode' q tail same _ => ?_
    cases mode' <;> cases same
    exact ⟨.nested q 0, rfl, rfl⟩
  | case4 pos c cs _ _ _ blank ih =>
    refine .step [c] (ih h) fun mode' q tail same _ => ?_
    cases mode' <;> cases same
    exact ⟨.blank, rfl, skip_blank blank q tail⟩
  -- Something else stands there, and the gap ends.
  | case5 pos c cs slash star paren blank =>
    cases h
    have stop := skips_clear slash star paren (Bool.eq_false_iff.2 blank)
    exact ⟨[], rfl, rfl, stop, stop⟩
  -- The text ends, and nothing would be left.
  | case6 => exact absurd (by cases h; rfl) some_char
  -- Inside a line comment every character is passed over.
  | case7 pos c cs ih =>
    refine .step [c] (ih h) fun mode' q tail same _ => ?_
    cases mode' <;> cases same
    exact ⟨_, rfl, rfl⟩
  | case8 => exact absurd (by cases h; rfl) some_char
  -- A comment that does not nest ends with the first star and slash. Whether a character begins
  -- this end depends on the next one.
  | case9 start pos cs ih =>
    refine .step ['*', '/'] (ih h) fun mode' q tail same _ => ?_
    cases mode' <;> cases same
    exact ⟨.blank, rfl, rfl⟩
  | case10 start pos c cs other ih =>
    refine .step [c] (ih h) fun mode' q tail same head => ?_
    rcases mode' with _ | _ | start' | _ <;> cases same
    refine ⟨.block start', rfl, skip_block_other ?_ start' q⟩
    rintro tail' rfl rfl
    obtain ⟨cs, same⟩ := List.head?_eq_some_iff.1 head.symm
    exact other cs rfl same
  | case11 => cases h
  -- A nested comment counts its brackets.
  | case12 start depth pos cs ih =>
    refine .step ['(', '*'] (ih h) fun mode' q tail same _ => ?_
    rcases mode' with _ | _ | _ | ⟨start', _⟩ <;> cases same
    exact ⟨.nested start' (depth + 1), rfl, rfl⟩
  | case13 start depth pos cs ih =>
    refine .step ['*', ')'] (ih h) fun mode' q tail same _ => ?_
    rcases mode' with _ | _ | _ | ⟨start', _⟩ <;> cases same
    cases depth with
    | zero => exact ⟨.blank, rfl, rfl⟩
    | succ depth => exact ⟨.nested start' depth, rfl, rfl⟩
  -- As in a comment that does not nest, with two signs to be told apart from.
  | case14 start depth pos c cs opens closes ih =>
    refine .step [c] (ih h) fun mode' q tail same head => ?_
    rcases mode' with _ | _ | _ | ⟨start', _⟩ <;> cases same
    refine ⟨.nested start' depth, rfl, skip_nested_other ?_ ?_ start' depth q⟩
    · rintro tail' rfl rfl
      obtain ⟨cs, same⟩ := List.head?_eq_some_iff.1 head.symm
      exact opens cs rfl same
    · rintro tail' rfl rfl
      obtain ⟨cs, same⟩ := List.head?_eq_some_iff.1 head.symm
      exact closes cs rfl same
  | case15 => cases h

end Gap

/-! ### One token -/

namespace Scanner

/-- A token that is not the end of the text stands after blanks and comments, and is read there. -/
theorem next_eq {d : Dialect} {s s' : Scanner} {t : Token} (h : s.next d = .ok (t, s'))
    (goes : t.lexeme.isFinish = false) (sound : t.lexeme ≠ .malformed .unterminatedComment) :
    ∃ gap c cs x, s.rest = gap ++ c :: cs ∧ Gap.Skips .blank gap (c :: cs) ∧
      Gap.Skips .blank [] (c :: cs) ∧ Lexed.read d c cs = .ok x ∧ t.word = ⟨x.lexeme, String.ofList x.text⟩ ∧
      t.span.start = s.pos + gap.length ∧ t.span.stop = s'.pos ∧
      s' = ⟨s.pos + gap.length + x.text.length, x.rest⟩ := by
  cases next_eq_ok_iff.1 h with
  | unclosed => exact absurd rfl sound
  | ended => cases goes
  | @token pos c cs x skipped read =>
    obtain ⟨gap, rest, rfl, skips, stop⟩ := Gap.skip_again skipped (List.cons_ne_nil _ _)
    exact ⟨gap, c, cs, x, rest, skips, stop, read, rfl, rfl, rfl, rfl⟩

theorem next_shorter {d : Dialect} {s s' : Scanner} {t : Token} (h : s.next d = .ok (t, s'))
    (goes : t.lexeme.isFinish = false) : s'.rest.length < s.rest.length := by
  cases next_eq_ok_iff.1 h with
  | unclosed skipped =>
    cases hs : s.rest with
    | nil =>
      rw [hs] at skipped
      cases skipped
    | cons c cs => exact Nat.succ_pos _
  | ended => cases goes
  | @token pos c cs x skipped read =>
    have place := (Gap.skip_suffix skipped).length_le
    obtain ⟨some_char, parts⟩ := Lexed.read_splits d c cs x read
    have positive := List.length_pos_iff.2 some_char
    have whole := congrArg List.length parts
    rw [List.length_append] at whole
    dsimp only
    omega

/-- A token is found again from another place, where all of its characters and some of those after
it are kept. -/
theorem next_again {d : Dialect} {c : Char} {cs gap kept : List Char} {x : Lexed}
    (skips : Gap.Skips .blank gap (c :: cs)) (hx : Lexed.read d c cs = .ok x)
    (hk : Kept kept x.rest) (q : Nat) :
    ∃ t, (⟨q, gap ++ (x.text ++ kept)⟩ : Scanner).next d =
        .ok (t, ⟨q + gap.length + x.text.length, kept⟩) ∧
      t.word = ⟨x.lexeme, String.ofList x.text⟩ ∧ t.span.start = q + gap.length := by
  obtain ⟨-, parts⟩ := Lexed.read_splits d c cs x hx
  obtain ⟨text, ht, again⟩ := Lexed.read_kept hx hk
  have shorter : c :: (text ++ kept) <+: c :: cs := by
    obtain ⟨more, same⟩ := hk.isPrefix
    refine ⟨more, ?_⟩
    rw [← parts, ht, ← same]
    simp
  have clear := skips .blank q (c :: (text ++ kept)) rfl (List.cons_ne_nil _ _) shorter
  have next : Next d ⟨q, gap ++ (x.text ++ kept)⟩ _ ⟨_, kept⟩ :=
    .token (x := x.before kept) (by rw [ht]; exact clear) again
  exact ⟨_, next_eq_ok_iff.2 next, rfl, rfl⟩

end Scanner

/-! ### Tokens in a row -/

/-- Reading some tokens takes the scanner from one place to another. -/
inductive Scans (d : Dialect) : Scanner → List Token → Scanner → Prop
  | nil (s : Scanner) : Scans d s [] s
  | cons {s s' s'' : Scanner} {t : Token} {ts : List Token} (first : s.next d = .ok (t, s'))
      (goes : t.lexeme.isFinish = false) (rest : Scans d s' ts s'') : Scans d s (t :: ts) s''

namespace Scans

variable {d : Dialect} {s s' : Scanner} {ts ts' : List Token}

theorem append_iff : Scans d s (ts ++ ts') s' ↔ ∃ m, Scans d s ts m ∧ Scans d m ts' s' := by
  constructor
  · intro h
    induction ts generalizing s with
    | nil => exact ⟨s, .nil s, h⟩
    | cons t ts ih =>
      obtain _ | ⟨first, goes, rest⟩ := h
      obtain ⟨m, before, after⟩ := ih rest
      exact ⟨m, .cons first goes before, after⟩
  · rintro ⟨m, before, after⟩
    induction before with
    | nil => exact after
    | cons first goes _ ih => exact .cons first goes (ih after)

/-- The two points of a range are one token. -/
theorem range_of_points {cs : List Char} {x : Lexed} (h : Lexed.read d '.' ('.' :: cs) = .ok x) :
    x.text = ['.', '.'] := by
  have mark : Lexed.read d '.' ('.' :: cs) = .ok (Lexed.mark d '.' ('.' :: cs)) := rfl
  rw [mark] at h
  cases h
  simp only [Lexed.mark, Lexed.marks]
  cases d.compoundAssignment <;> simp [Lexed.compoundMarks, Lexed.plainMarks]

/-- What is kept behind a token is kept from before the token on. -/
theorem kept_before {c : Char} {gap cs kept : List Char} {x : Lexed} (hx : Lexed.read d c cs = .ok x)
    (hk : Kept kept x.rest) : Kept (gap ++ (x.text ++ kept)) (gap ++ c :: cs) := by
  obtain ⟨some_char, parts⟩ := Lexed.read_splits d c cs x hx
  refine ⟨?_, fun point longer => ?_, fun none => ?_⟩
  · obtain ⟨tail, same⟩ := hk.isPrefix
    refine ⟨tail, ?_⟩
    rw [← parts, ← same]
    simp
  -- A point alone would be half of the range that the text goes on with.
  · obtain ⟨e, text, ht⟩ := List.exists_cons_of_ne_nil some_char
    obtain ⟨rfl, -, rfl⟩ : gap = [] ∧ text ++ kept = [] ∧ e = '.' := by
      have length := congrArg List.length point
      simp only [ht, List.length_append, List.length_cons, List.length_nil] at length
      obtain rfl : gap = [] := List.eq_nil_of_length_eq_zero (by omega)
      rw [ht] at point
      simp only [List.nil_append, List.cons_append, List.cons.injEq] at point
      exact ⟨rfl, point.2, point.1⟩
    rw [ht] at parts
    obtain rfl : c = '.' := (List.cons.inj parts).1.symm
    obtain ⟨tail, same⟩ := longer
    obtain rfl : cs = '.' :: tail := by simpa using same.symm
    have two := congrArg List.length (range_of_points hx)
    have one := congrArg List.length point
    simp only [List.length_append, List.length_cons, List.length_nil] at two one
    omega
  · simp [some_char] at none

/-- The same words are read again when the text is cut off behind them. -/
theorem again (h : Scans d s ts s')
    (sound : ∀ t ∈ ts, t.lexeme ≠ .malformed .unterminatedComment) :
    ∃ u, s.rest = u ++ s'.rest ∧ s'.pos = s.pos + u.length ∧ ∀ kept, Kept kept s'.rest →
      Kept (u ++ kept) s.rest ∧ ∀ q, ∃ us, Scans d ⟨q, u ++ kept⟩ us ⟨q + u.length, kept⟩ ∧
        us.map Token.word = ts.map Token.word := by
  induction h with
  | nil s => exact ⟨[], rfl, rfl, fun kept hk => ⟨hk, fun q => ⟨[], .nil _, rfl⟩⟩⟩
  | @cons s m s' t ts first goes rest ih =>
    obtain ⟨gap, c, cs, x, before, skips, -, hx, word, -, -, rfl⟩ :=
      Scanner.next_eq first goes (sound t List.mem_cons_self)
    obtain ⟨u, after, pos, more⟩ := ih fun t ht => sound t (List.mem_cons_of_mem _ ht)
    obtain ⟨-, parts⟩ := Lexed.read_splits d c cs x hx
    dsimp only at after pos more
    refine ⟨gap ++ (x.text ++ u), ?_, ?_, fun kept hk => ?_⟩
    · rw [before, ← parts, after]
      simp
    · rw [pos]
      simp only [List.length_append]
      omega
    obtain ⟨hk', again⟩ := more kept hk
    have cut : gap ++ (x.text ++ u) ++ kept = gap ++ (x.text ++ (u ++ kept)) := by simp
    rw [cut]
    refine ⟨before ▸ kept_before hx hk', fun q => ?_⟩
    -- The first token is read again, and the others behind it.
    obtain ⟨t', next, word', -⟩ := Scanner.next_again skips hx hk' q
    obtain ⟨us, scans, words⟩ := again (q + gap.length + x.text.length)
    have lexeme : t'.lexeme = t.lexeme := congrArg Word.lexeme (word'.trans word.symm)
    have stop : q + (gap ++ (x.text ++ u)).length =
        q + gap.length + x.text.length + u.length := by
      simp only [List.length_append]
      omega
    refine ⟨t' :: us, ?_, ?_⟩
    · rw [stop]
      exact .cons next (lexeme ▸ goes) scans
    · rw [List.map_cons, List.map_cons, word', word, words]

/-- The last token ends where the scanner arrives. -/
theorem last_stop (h : Scans d s ts s')
    (sound : ∀ t ∈ ts, t.lexeme ≠ .malformed .unterminatedComment) :
    ∀ t ∈ ts.getLast?, t.span.stop = s'.pos := by
  induction h with
  | nil => exact fun t ht => by cases ht
  | @cons s m s' t ts first goes rest ih =>
    cases rest with
    | nil =>
      rintro t ⟨⟩
      obtain ⟨-, -, -, -, -, -, -, -, -, -, stop, -⟩ :=
        Scanner.next_eq first goes (sound _ List.mem_cons_self)
      exact stop
    | cons first' goes' rest' =>
      intro u hu
      rw [List.getLast?_cons_cons] at hu
      exact ih (fun t ht => sound t (List.mem_cons_of_mem _ ht)) u hu

theorem shorter (h : Scans d s ts s')
    (sound : ∀ t ∈ ts, t.lexeme ≠ .malformed .unterminatedComment) :
    ts.length + s'.rest.length ≤ s.rest.length := by
  induction h with
  | nil => simp
  | @cons s m s' t ts first goes rest ih =>
    obtain ⟨gap, c, cs, x, before, -, -, hx, -, -, -, rfl⟩ :=
      Scanner.next_eq first goes (sound t List.mem_cons_self)
    obtain ⟨some_char, parts⟩ := Lexed.read_splits d c cs x hx
    have later := ih fun t ht => sound t (List.mem_cons_of_mem _ ht)
    have positive := List.length_pos_iff.2 some_char
    rw [before, ← parts]
    simp only [List.length_append, List.length_cons] at later ⊢
    omega

/-- A scanner that comes to the end of the text after these tokens gives them and the end. -/
theorem run_last (h : Scans d s ts s') {fin : Token} {m : Scanner}
    (last : s'.next d = .ok (fin, m)) (ends : fin.lexeme.isFinish = true) :
    ∀ n, ts.length < n → s.run d n = (ts ++ [fin], none) := by
  induction h with
  | nil s =>
    intro n hn
    cases n with
    | zero => cases hn
    | succ n =>
      rw [Scanner.run, last]
      dsimp only
      rw [if_pos ends]
      rfl
  | cons first goes rest ih =>
    intro n hn
    cases n with
    | zero => cases hn
    | succ n =>
      rw [Scanner.run, first]
      dsimp only
      rw [goes, ih last n (Nat.lt_of_succ_lt_succ hn)]
      rfl

/-- A scanner that arrives at the end of the text gives these tokens. -/
theorem run (h : Scans d s ts s') (ended : s'.rest = []) :
    ∀ n, ts.length < n → s.run d n = (ts ++ [Scanner.finish s'.pos], none) := by
  have last : s'.next d = .ok (Scanner.finish s'.pos, ⟨s'.pos, []⟩) := by
    rw [Scanner.next_eq_ok_iff]
    exact .ended (by rw [ended]; rfl)
  exact h.run_last last rfl

/-- The tokens of a run that is not cut short. -/
theorem of_run {n : Nat} {all : List Token} (h : s.run d n = (all, none))
    (long : s.rest.length < n) :
    ∃ ts fin m m', all = ts ++ [fin] ∧ Scans d s ts m ∧ m.next d = .ok (fin, m') ∧
      fin.lexeme.isFinish = true := by
  induction n generalizing s all with
  | zero => cases long
  | succ n ih =>
    rw [Scanner.run] at h
    split at h
    · cases h
    · next t m next =>
      split at h
      · next ends =>
        cases h
        exact ⟨[], t, s, m, rfl, .nil s, next, ends⟩
      · next goes =>
        have goes : t.lexeme.isFinish = false := Bool.eq_false_iff.2 goes
        -- Each token takes at least a character, so the steps suffice.
        have less := Scanner.next_shorter next goes
        cases hrun : m.run d n with
        | mk more fault =>
          rw [hrun] at h
          cases h
          obtain ⟨ts, fin, m₁, m₂, rfl, scans, last, ends⟩ := ih hrun (by omega)
          exact ⟨t :: ts, fin, m₁, m₂, rfl, .cons next goes scans, last, ends⟩

end Scans

/-! ### Stretches of a text -/

/-- A character that begins no mark is unknown. -/
theorem Lexed.mark_unknown (d : Dialect) {c : Char} (cs : List Char)
    (other : ∀ m ∈ compoundMarks ++ plainMarks, m.1.head?.any (· != c) = true) :
    (mark d c cs).lexeme = .unknown := by
  have none : (marks d).find? (·.1.isPrefixOf (c :: cs)) = none := by
    rw [List.find?_eq_none]
    intro m hm found
    have listed : m ∈ compoundMarks ++ plainMarks := by
      unfold marks at hm
      split at hm
      · exact hm
      · exact List.mem_append_right _ hm
    have first := other m listed
    rw [List.isPrefixOf_iff_prefix] at found
    obtain ⟨more, same⟩ := found
    cases ht : m.1 with
    | nil =>
      rw [ht] at first
      cases first
    | cons e text =>
      rw [ht] at first same
      cases same
      simp at first
  rw [mark, none]

theorem Lexed.mark_digit (d : Dialect) {c : Char} (digit : isDigit c = true) (cs : List Char) :
    (mark d c cs).lexeme = .unknown := by
  have all : ∀ m ∈ compoundMarks ++ plainMarks, m.1.head?.any (!isDigit ·) = true := by decide
  refine mark_unknown d cs fun m hm => ?_
  have first := all m hm
  rw [Option.any_eq_true] at first ⊢
  obtain ⟨e, he, other⟩ := first
  refine ⟨e, he, ?_⟩
  simp only [bne_iff_ne, ne_eq]
  rintro rfl
  rw [digit] at other
  cases other

/-- A digit that is not one of ten is an unknown character. -/
theorem Scanner.next_digit {d : Dialect} {s s' : Scanner} {t : Token} (h : s.next d = .ok (t, s'))
    (known : t.lexeme ≠ .unknown) :
    ∀ c ∈ s.rest.head?, isDigit c = true → isAsciiDigit c = true := by
  intro c hc digit
  by_contra other
  refine known ?_
  obtain ⟨cs, hs⟩ := List.head?_eq_some_iff.1 hc
  -- Such a digit begins no blank, no comment and no name, so it is looked up among the marks.
  have apart (e : Char) (he : isDigit e = false) : c ≠ e := by
    rintro rfl
    rw [digit] at he
    cases he
  have blank : isBlank c = false := by
    by_contra hb
    rw [Bool.not_eq_false] at hb
    exact absurd (Text.not_isDigit_of_isBlank hb) (by simp [digit])
  have name : ¬isNameStart c = true := by
    intro hn
    exact absurd (not_isDigit_of_isNameStart hn) (by simp [digit])
  have clear : Gap.skip .blank s.pos (c :: cs) = .clear s.pos (c :: cs) :=
    Gap.skip_clear blank (absurd · (apart '/' (by decide))) (absurd · (apart '(' (by decide))) s.pos
  have read : Lexed.read d c cs = .ok (mark d c cs) := by
    unfold Lexed.read
    rw [if_neg name, if_neg other, if_neg (apart _ (by decide)), if_neg (apart _ (by decide)),
      if_neg (apart _ (by decide))]
    simp [apart '\x7b' (by decide)]
  cases next_eq_ok_iff.1 h with
  | unclosed skipped =>
    rw [hs, clear] at skipped
    cases skipped
  | ended skipped =>
    rw [hs, clear] at skipped
    cases skipped
  | token skipped cut =>
    rw [hs, clear] at skipped
    cases skipped
    rw [read] at cut
    cases cut
    exact mark_digit d digit cs

/-- Where only known tokens come, up to the end of the text, no other digit does. -/
theorem Scans.not_otherDigit {d : Dialect} {s s' m : Scanner} {ts : List Token} {fin : Token}
    (h : Scans d s ts s') (last : s'.next d = .ok (fin, m)) (ends : fin.lexeme.isFinish = true)
    (known : ∀ t ∈ ts, t.lexeme ≠ .unknown) :
    ∀ c ∈ s.rest.head?, isDigit c = true → isAsciiDigit c = true := by
  cases h with
  | nil =>
    refine Scanner.next_digit last fun same => ?_
    rw [same] at ends
    cases ends
  | cons next goes rest => exact Scanner.next_digit next (known _ List.mem_cons_self)

/-- A mark for the order of bytes stands at the beginning of a text only. -/
theorem Lexed.read_byteOrder {d : Dialect} {cs : List Char} {x : Lexed}
    (h : Lexed.read d '\ufeff' cs = .ok x) : x.lexeme = .unknown := by
  have read : Lexed.read d '\ufeff' cs = .ok (mark d '\ufeff' cs) := rfl
  rw [read] at h
  cases h
  exact mark_unknown d cs (by decide)

/-- A lexeme that may be part of a text that is read without an error: it is well formed and has a
meaning.  The end of a text is none. -/
def Lexeme.isSound : Lexeme → Bool
  | .malformed _ | .unknown | .mark .percent | .pragma _ | .finish => false
  | _ => true

/-- The reserved word is written in literals only. -/
def Keyword.isLiteral (k : Keyword) : Bool :=
  [.TRUE, .FALSE, .NULL, .STRING, .WSTRING].contains k

/-- The word as the grammar takes it: reserved words and marks have one spelling.  The words that
are written in literals keep theirs. -/
def Word.sign (w : Word) : Word :=
  match w.lexeme with
  | .keyword k => if k.isLiteral then w else .keyword k
  | .mark m => .mark m
  | _ => w

/-- The token as the grammar takes it. -/
def Token.sign (t : Token) : Word := t.word.sign

/-- The words that a text reads as. -/
def wordsOf (d : Dialect) (text : List Char) : List Word :=
  match tokens d text with
  | .ok ts => ts.dropLast.map Token.sign
  | .error _ => []

theorem Scanner.start_rest (source : List Char) :
    (Scanner.start source).rest = source.drop (Scanner.start source).pos := by
  unfold Scanner.start
  split
  · rfl
  · rfl

/-- The words of a text that is scanned to its end. -/
theorem Scans.wordsOf {d : Dialect} {u : List Char} {us : List Token} {s' : Scanner}
    (h : Scans d ⟨0, u⟩ us s') (ended : s'.rest = [])
    (sound : ∀ t ∈ us, t.lexeme ≠ .malformed .unterminatedComment)
    (opens : u.head? ≠ some '\ufeff') : wordsOf d u = us.map Token.sign := by
  have short := h.shorter sound
  have run := h.run ended (u.length + 1) (by dsimp only at short; omega)
  unfold Plc.wordsOf tokens scan
  rw [Scanner.start_plain opens, run]
  dsimp only
  rw [List.dropLast_concat]

theorem Lexeme.isSound_of_isFinish {l : Lexeme} (h : l.isSound = true) : l.isFinish = false := by
  cases l with
  | finish => cases h
  | _ => rfl

theorem sound_comment {ts : List Token} (h : ∀ t ∈ ts, t.lexeme.isSound = true) :
    ∀ t ∈ ts, t.lexeme ≠ .malformed .unterminatedComment := by
  intro t ht same
  have := h t ht
  rw [same] at this
  cases this

theorem sound_of_words {ts us : List Token} (h : us.map Token.word = ts.map Token.word)
    (sound : ∀ t ∈ ts, t.lexeme.isSound = true) : ∀ u ∈ us, u.lexeme.isSound = true := by
  intro u hu
  have listed : u.word ∈ ts.map Token.word := h ▸ List.mem_map_of_mem hu
  obtain ⟨t, ht, same⟩ := List.mem_map.1 listed
  rw [show u.lexeme = t.lexeme from congrArg Word.lexeme same.symm]
  exact sound t ht

/-- The tokens of a text, the end of the text last, and where the scanner stands before it. -/
theorem scans_of_tokens' {d : Dialect} {source : List Char} {all : List Token}
    (h : tokens d source = .ok all) :
    ∃ ts fin m m', all = ts ++ [fin] ∧ Scans d (Scanner.start source) ts m ∧
      m.next d = .ok (fin, m') ∧ fin.lexeme.isFinish = true := by
  unfold tokens at h
  split at h
  · next all' hscan =>
    cases h
    refine Scans.of_run hscan ?_
    exact Nat.lt_succ_of_le (Scanner.start_suffix source).length_le
  · cases h

theorem scans_of_tokens {d : Dialect} {source : List Char} {ts : List Token} {fin : Token}
    (h : tokens d source = .ok (ts ++ [fin])) :
    ∃ m m', Scans d (Scanner.start source) ts m ∧ m.next d = .ok (fin, m') ∧
      fin.lexeme.isFinish = true := by
  obtain ⟨ts', fin', m, m', parts, scans, last, ends⟩ := scans_of_tokens' h
  obtain ⟨rfl, same⟩ := List.append_inj' parts rfl
  obtain rfl := (List.cons.inj same).1
  exact ⟨m, m', scans, last, ends⟩

/-- Only the last token ends the text. -/
theorem Scans.goes {d : Dialect} {s s' : Scanner} {ts : List Token} (h : Scans d s ts s') :
    ∀ t ∈ ts, t.lexeme.isFinish = false := by
  induction h with
  | nil => exact List.forall_mem_nil _
  | cons first goes rest ih => exact List.forall_mem_cons.2 ⟨goes, ih⟩

/-- Where a scanner of the text stands. -/
theorem Scans.place {d : Dialect} {source : List Char} {ts : List Token} {s : Scanner}
    (h : Scans d (Scanner.start source) ts s) (sound : ∀ t ∈ ts, t.lexeme.isSound = true) :
    s.rest = source.drop s.pos := by
  obtain ⟨u, rest, pos, -⟩ := h.again (sound_comment sound)
  rw [pos, ← List.drop_drop, ← Scanner.start_rest, rest, List.drop_left]

/-- The characters of a token are those of its span. -/
theorem Token.text_of_tokens {d : Dialect} {source : List Char} {front back : List Token}
    {t fin : Token} (h : tokens d source = .ok (front ++ t :: back ++ [fin]))
    (sound : ∀ u ∈ front ++ t :: back, u.lexeme.isSound = true) :
    t.span.text source = t.text.toList := by
  obtain ⟨m, m', scans, -⟩ := scans_of_tokens h
  obtain ⟨m₁, before, scans⟩ := Scans.append_iff.1 scans
  have here := before.place fun u hu => sound u (List.mem_append_left _ hu)
  have soundBack : ∀ u ∈ t :: back, u.lexeme.isSound = true :=
    fun u hu => sound u (List.mem_append_right _ hu)
  obtain _ | ⟨next, goes, -⟩ := scans
  obtain ⟨gap, c, cs, x, whole, -, -, hx, word, begins, arrives, rfl⟩ :=
    Scanner.next_eq next goes (sound_comment soundBack t List.mem_cons_self)
  obtain ⟨-, parts⟩ := Lexed.read_splits d c cs x hx
  show (source.drop t.span.start).take (t.span.stop - t.span.start) = _
  have size : t.span.stop - t.span.start = x.text.length := by
    dsimp only at arrives
    omega
  rw [size, begins, ← List.drop_drop, ← here, whole, List.drop_left, ← parts, List.take_left,
    show t.text = String.ofList x.text from congrArg Word.text word, String.toList_ofList]

/-- Tokens end one after another. -/
theorem Token.stop_le {d : Dialect} {source : List Char} {front mid back : List Token}
    {fin first last : Token} (h : tokens d source = .ok (front ++ (mid ++ back) ++ [fin]))
    (sound : ∀ t ∈ front ++ (mid ++ back), t.lexeme.isSound = true) (hf : first ∈ mid.head?)
    (hl : last ∈ mid.getLast?) : first.span.stop ≤ last.span.stop := by
  obtain ⟨m, m', scans, -⟩ := scans_of_tokens h
  obtain ⟨m₁, -, scans⟩ := Scans.append_iff.1 scans
  obtain ⟨m₂, during, -⟩ := Scans.append_iff.1 scans
  have soundMid : ∀ t ∈ mid, t.lexeme.isSound = true :=
    fun t ht => sound t (List.mem_append_right _ (List.mem_append_left _ ht))
  have arrives := during.last_stop (sound_comment soundMid) last hl
  cases during with
  | nil => cases hf
  | cons next goes more =>
    cases hf
    obtain ⟨-, -, -, -, -, -, -, -, -, -, stop, -⟩ :=
      Scanner.next_eq next goes (sound_comment soundMid first List.mem_cons_self)
    obtain ⟨u, -, pos, -⟩ := more.again
      (sound_comment fun t ht => soundMid t (List.mem_cons_of_mem _ ht))
    rw [stop, arrives, pos]
    exact Nat.le_add_right ..

/-- A stretch of a text that is cut into sound tokens reads as the words of these tokens. -/
theorem wordsOf_stretch {d : Dialect} {source : List Char} {front mid back : List Token}
    {fin first last : Token} {span : Span}
    (h : tokens d source = .ok (front ++ (mid ++ back) ++ [fin]))
    (sound : ∀ t ∈ front ++ (mid ++ back), t.lexeme.isSound = true)
    (hf : first ∈ mid.head?) (hl : last ∈ mid.getLast?) (start : span.start = first.span.start)
    (stop : span.stop = last.span.stop) :
    wordsOf d (span.text source) = mid.map Token.sign := by
  obtain ⟨m, m', scans, ended, ends⟩ := scans_of_tokens h
  obtain ⟨m₁, before, scans⟩ := Scans.append_iff.1 scans
  obtain ⟨m₂, during, after⟩ := Scans.append_iff.1 scans
  have soundMid : ∀ t ∈ mid, t.lexeme.isSound = true :=
    fun t ht => sound t (List.mem_append_right _ (List.mem_append_left _ ht))
  have soundFront : ∀ t ∈ front, t.lexeme.isSound = true :=
    fun t ht => sound t (List.mem_append_left _ ht)
  -- nothing that is cut off behind the stretch would change its last token
  have kept : Kept [] m₂.rest := by
    refine ⟨List.nil_prefix, nofun, fun _ => after.not_otherDigit ended ends fun t ht same => ?_⟩
    have sound := sound t (List.mem_append_right _ (List.mem_append_right _ ht))
    rw [same] at sound
    cases sound
  have here := before.place soundFront
  have arrives := during.last_stop (sound_comment soundMid) last hl
  cases during with
  | nil => cases hf
  | @cons _ m₃ _ t ts next goes more =>
    cases hf
    obtain ⟨gap, c, cs, x, whole, -, stays, hx, word, begins, -, rfl⟩ :=
      Scanner.next_eq next goes (sound_comment soundMid first List.mem_cons_self)
    obtain ⟨-, parts⟩ := Lexed.read_splits d c cs x hx
    -- the stretch itself begins without a blank
    have all : Kept x.rest x.rest := by
      refine ⟨List.prefix_rfl, ?_, ?_⟩
      · rintro one ⟨tail, two⟩
        rw [one] at two
        cases two
      · rintro none c hc
        rw [none] at hc
        cases hc
    obtain ⟨t', next', word', -⟩ := Scanner.next_again stays hx all (m₁.pos + gap.length)
    rw [List.nil_append, parts] at next'
    have same : t'.word = first.word := word'.trans word.symm
    have lexeme : t'.lexeme = first.lexeme := congrArg Word.lexeme same
    have scans' : Scans d ⟨m₁.pos + gap.length, c :: cs⟩ (t' :: ts) m₂ :=
      .cons next' (lexeme ▸ goes) more
    have words' : (t' :: ts).map Token.word = (first :: ts).map Token.word := by
      rw [List.map_cons, List.map_cons, same]
    obtain ⟨u, text, length, again⟩ :=
      scans'.again (sound_comment (sound_of_words words' soundMid))
    obtain ⟨us, alone, words⟩ := (again [] kept).2 0
    rw [List.append_nil] at alone
    dsimp only at text length
    have stretch : span.text source = u := by
      show (source.drop span.start).take (span.stop - span.start) = u
      have size : span.stop - span.start = u.length := by omega
      rw [size, start, begins, ← List.drop_drop, ← here, whole, List.drop_left, text,
        List.take_left]
    have opens : u.head? ≠ some '\ufeff' := by
      intro mark
      obtain ⟨tail, rfl⟩ := List.head?_eq_some_iff.1 mark
      obtain rfl : c = '\ufeff' := (List.cons.inj text).1
      have known := soundMid first List.mem_cons_self
      rw [show first.lexeme = x.lexeme from congrArg Word.lexeme word,
        Lexed.read_byteOrder hx] at known
      cases known
    have words := words.trans words'
    rw [stretch, alone.wordsOf rfl (sound_comment (sound_of_words words soundMid)) opens]
    have signs := congrArg (List.map Word.sign) words
    rwa [List.map_map, List.map_map] at signs

/-- A sound token is the only one of its own characters. -/
theorem wordsOf_text {d : Dialect} {source : List Char} {front back : List Token} {t fin : Token}
    (h : tokens d source = .ok (front ++ t :: back ++ [fin]))
    (sound : ∀ u ∈ front ++ t :: back, u.lexeme.isSound = true) :
    wordsOf d t.text.toList = [t.sign] := by
  rw [← Token.text_of_tokens h sound]
  exact @wordsOf_stretch d source front [t] back fin t t t.span h sound rfl rfl rfl rfl

end Plc
