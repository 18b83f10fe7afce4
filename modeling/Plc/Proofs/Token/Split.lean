/-
Tokens are cut off the front of a text and nothing is lost.

Whatever `Lexed.read` takes for a token, its characters and the characters after it
are together the text that was read.

* `Lexed.Splits` — a token and what follows it make up a text;
* `Lexed.read_splits` — every token read does, and it has at least one character;
* `readIn_of_mem_scan` — a token of a text was read at some place of that text.
-/
import Plc.Proofs.Fallible
import Plc.Token.Scan
import Mathlib.Data.List.TakeWhile

namespace Plc

open Text

namespace Lexed

/-- The token has characters, and they and the characters after it are the text. -/
structure Splits (x : Lexed) (cs : List Char) : Prop where
  text_ne_nil : x.text ≠ []
  append : x.text ++ x.rest = cs

/-- A result of a reader that splits the text, when there is a result. -/
def SplitsOk (r : Except Fault Lexed) (cs : List Char) : Prop :=
  ∀ x, r = .ok x → x.Splits cs

theorem SplitsOk.ok {x : Lexed} {cs : List Char} (h : x.Splits cs) : SplitsOk (.ok x) cs := by
  intro y hy
  cases hy
  exact h

theorem SplitsOk.error (f : Fault) (cs : List Char) : SplitsOk (.error f) cs := by
  intro y hy
  cases hy

/-! ### Words -/

theorem timeBody_append (cs : List Char) : (timeBody cs).1 ++ (timeBody cs).2 = cs := by
  induction cs with
  | nil => rfl
  | cons c cs ih =>
    rw [timeBody]
    split
    · exact congrArg (c :: ·) ih
    · rfl

theorem plainWord_splits (d : Dialect) {text : List Char} (some_char : text ≠ [])
    (rest : List Char) : (plainWord d text rest).Splits (text ++ rest) := by
  unfold plainWord
  split
  · exact ⟨some_char, rfl⟩
  · exact ⟨some_char, rfl⟩

theorem word_splits (d : Dialect) {c : Char} {cs : List Char} (hc : isNameStart c = true) :
    (word d (c :: cs)).Splits (c :: cs) := by
  have some_char : (c :: cs).takeWhile isNameChar ≠ [] := by
    rw [List.takeWhile_cons_of_pos (isNameChar_of_isNameStart hc)]
    exact List.cons_ne_nil _ _
  have whole := List.takeWhile_append_dropWhile (p := isNameChar) (l := c :: cs)
  unfold word
  generalize (c :: cs).takeWhile isNameChar = text at *
  generalize (c :: cs).dropWhile isNameChar = rest at *
  rw [← whole]
  dsimp only
  split
  · next cs' literal _ =>
    refine ⟨by simp [some_char], ?_⟩
    show (text ++ '#' :: (timeBody cs').1) ++ (timeBody cs').2 = _
    rw [List.append_assoc, List.cons_append, timeBody_append]
  · exact plainWord_splits d some_char _

/-! ### Numbers -/

/-- Digits in a base make an integer, or a malformed token. -/
theorem basedLexeme_cases {radix : Nat} {digits : List Char} {l : Lexeme}
    (h : basedLexeme radix digits = .ok l) : (∃ n, l = .integer n) ∨ l = .malformed .invalidNumber := by
  unfold basedLexeme at h
  split at h
  · split at h
    · obtain ⟨n, -, h⟩ := bind_eq_ok h
      cases h
      exact .inl ⟨n, rfl⟩
    · cases h
      exact .inr rfl
  · cases h
    exact .inr rfl

/-- A number in a base consists of the base, the `#` and the digits, whatever it is taken for. -/
theorem basedNumber_parts {base cs : List Char} {x : Lexed} (h : basedNumber base cs = .ok x) :
    x.text = base ++ '#' :: cs.takeWhile (isGrouped isHexDigit) ∧
      x.rest = cs.dropWhile (isGrouped isHexDigit) := by
  unfold basedNumber at h
  obtain ⟨radix, -, h⟩ := bind_eq_ok h
  obtain ⟨lexeme, -, h⟩ := bind_eq_ok h
  cases h
  exact ⟨rfl, rfl⟩

theorem basedNumber_splits (base cs : List Char) :
    SplitsOk (basedNumber base cs) (base ++ '#' :: cs) := by
  intro x h
  obtain ⟨text, rest⟩ := basedNumber_parts h
  refine ⟨?_, ?_⟩
  · rw [text]
    simp
  · rw [text, rest, List.append_assoc, List.cons_append, List.takeWhile_append_dropWhile]

theorem afterPoint_append (p : Char → Bool) (cs : List Char) :
    fractionText (afterPoint p cs).1 ++ (afterPoint p cs).2 = cs := by
  unfold afterPoint
  split
  · split
    · simp [fractionText]
    · rfl
  · rfl

theorem fraction_append (cs : List Char) : fractionText (fraction cs).1 ++ (fraction cs).2 = cs :=
  afterPoint_append _ cs

theorem exponentSign_append (cs : List Char) : (exponentSign cs).1 ++ (exponentSign cs).2 = cs := by
  unfold exponentSign
  split
  · split
    · rfl
    · rfl
  · rfl

theorem exponent_append (cs : List Char) : exponentText (exponent cs).1 ++ (exponent cs).2 = cs := by
  unfold exponent
  split
  · next e cs' =>
    dsimp only
    split
    · have digits := List.takeWhile_append_dropWhile (p := isGrouped isAsciiDigit)
        (l := (exponentSign cs').2)
      simp only [exponentText, List.cons_append, List.append_assoc, digits, exponentSign_append]
    · rfl
  · rfl

theorem decimalNumber_splits {whole : List Char} (some_digit : whole ≠ []) (cs : List Char) :
    SplitsOk (decimalNumber whole cs) (whole ++ cs) := by
  -- all results have the same characters, whatever they are taken for
  have splits (l : Lexeme) : Splits ⟨l, whole ++ fractionText (fraction cs).1 ++
      exponentText (exponent (fraction cs).2).1, (exponent (fraction cs).2).2⟩ (whole ++ cs) := by
    refine ⟨by simp [some_digit], ?_⟩
    show (whole ++ _ ++ _) ++ _ = _
    rw [List.append_assoc, exponent_append, List.append_assoc, fraction_append]
  intro x h
  unfold decimalNumber at h
  dsimp only at h
  split at h
  · cases h
    exact splits _
  · split at h
    · next hf he =>
      obtain ⟨n, -, h⟩ := bind_eq_ok h
      cases h
      exact splits _
    · next he =>
      split at h
      · cases h
      · cases h
        exact splits _
    · next hf he =>
      cases h
      exact splits _

theorem number_splits {c : Char} {cs : List Char} (hc : isAsciiDigit c = true) :
    SplitsOk (number (c :: cs)) (c :: cs) := by
  have grouped : isGrouped isAsciiDigit c = true := by simp [isGrouped, hc]
  have some_digit : (c :: cs).takeWhile (isGrouped isAsciiDigit) ≠ [] := by
    rw [List.takeWhile_cons_of_pos grouped]
    exact List.cons_ne_nil _ _
  have whole := List.takeWhile_append_dropWhile (p := isGrouped isAsciiDigit) (l := c :: cs)
  unfold number
  generalize (c :: cs).takeWhile (isGrouped isAsciiDigit) = digits at *
  generalize (c :: cs).dropWhile (isGrouped isAsciiDigit) = rest at *
  dsimp only
  rw [← whole]
  split
  · next cs' => exact basedNumber_splits digits cs'
  · exact decimalNumber_splits some_digit rest

/-! ### Strings, annotations and addresses -/

theorem stringBody_append {quote : Char} {skip : Nat} {cs text value rest : List Char}
    (h : stringBody quote skip cs = some (text, value, rest)) : text ++ rest = cs := by
  -- One character is taken at a time. Those of a unit behind its first are skipped, and are text
  -- all the same.
  induction cs generalizing skip text value with
  | nil => cases skip <;> exact absurd h (by simp [stringBody])
  | cons c cs ih =>
    cases skip with
    | succ skip =>
      rw [stringBody, Option.map_eq_some_iff] at h
      obtain ⟨⟨text', value', rest'⟩, inner, same⟩ := h
      cases same
      exact congrArg (c :: ·) (ih inner)
    | zero =>
      rw [stringBody] at h
      cases hu : unit? quote c cs with
      | none =>
        rw [hu] at h
        cases h
        rfl
      | some unit =>
        rw [hu] at h
        dsimp only at h
        rw [Option.map_eq_some_iff] at h
        obtain ⟨⟨text', value', rest'⟩, inner, same⟩ := h
        cases same
        exact congrArg (c :: ·) (ih inner)

theorem stringLiteral_splits (quote : Char) (cs : List Char) :
    (stringLiteral quote cs).Splits (quote :: cs) := by
  unfold stringLiteral
  split
  · next text value rest h =>
    refine ⟨List.cons_ne_nil _ _, ?_⟩
    exact congrArg (quote :: ·) (stringBody_append h)
  · exact ⟨List.cons_ne_nil _ _, List.append_nil _⟩

theorem upTo?_append {close : Char} {cs inner rest : List Char}
    (h : upTo? close cs = some (inner, rest)) : inner ++ close :: rest = cs := by
  have whole := List.takeWhile_append_dropWhile (p := (· != close)) (l := cs)
  unfold upTo? at h
  split at h
  · next c _ hd =>
    cases h
    have stop := List.head?_dropWhile_not (· != close) cs
    rw [hd] at stop whole
    obtain rfl : c = close := by simpa using stop
    exact whole
  · cases h

theorem quotedName_splits (cs : List Char) : (quotedName cs).Splits ('"' :: cs) := by
  unfold quotedName
  split
  · next name rest h =>
    refine ⟨by simp, ?_⟩
    rw [← upTo?_append h]
    simp
  · exact ⟨List.cons_ne_nil _ _, List.append_nil _⟩

theorem pragma_splits (cs : List Char) : (pragma cs).Splits ('\x7b' :: cs) := by
  unfold pragma
  split
  · next body rest h =>
    refine ⟨by simp, ?_⟩
    rw [← upTo?_append h]
    simp
  · exact ⟨List.cons_ne_nil _ _, List.append_nil _⟩

theorem addressTail_splits (lead : List Char) (area : Address.Area) (size : Address.Size)
    (cs : List Char) (some_char : lead ≠ []) :
    SplitsOk (addressTail lead area size cs) (lead ++ cs) := by
  intro x h
  unfold addressTail at h
  dsimp only at h
  split at h
  · cases h
    refine ⟨by simp [some_char], ?_⟩
    rw [List.append_assoc, List.takeWhile_append_dropWhile]
  · obtain ⟨bit, -, h⟩ := bind_eq_ok h
    obtain ⟨byte, -, h⟩ := bind_eq_ok h
    cases h
    refine ⟨by simp [some_char], ?_⟩
    dsimp only
    rw [List.append_assoc, afterPoint_append, List.append_assoc, List.takeWhile_append_dropWhile]

theorem address_splits (cs : List Char) : SplitsOk (address cs) ('%' :: cs) := by
  unfold address
  split
  · next a cs' =>
    split
    · split
      · next s cs'' =>
        split
        · exact addressTail_splits ['%', a, s] _ _ cs'' (by simp)
        · exact addressTail_splits ['%', a] _ _ (s :: cs'') (by simp)
      · exact addressTail_splits ['%', a] _ _ [] (by simp)
    · exact .ok ⟨by simp, rfl⟩
  · exact .ok ⟨by simp, rfl⟩

/-! ### One token -/

theorem mark_splits (d : Dialect) (c : Char) (cs : List Char) : (mark d c cs).Splits (c :: cs) := by
  unfold mark
  split
  · next text lexeme h =>
    have isPrefix : text <+: c :: cs := by
      have found := List.find?_some h
      rwa [List.isPrefixOf_iff_prefix] at found
    have some_char : text ≠ [] := by
      have listed := List.mem_of_find?_eq_some h
      rintro rfl
      unfold marks at listed
      split at listed
      · simp [compoundMarks, plainMarks] at listed
      · simp [plainMarks] at listed
    obtain ⟨rest, hrest⟩ := isPrefix
    refine ⟨some_char, ?_⟩
    rw [← hrest]
    simp
  · exact ⟨List.cons_ne_nil _ _, rfl⟩

/-- A token that is read and the characters after it are the text, and the token has characters. -/
-- One case for each kind of first character, in the order in which they are asked for.
theorem read_splits (d : Dialect) (c : Char) (cs : List Char) :
    SplitsOk (read d c cs) (c :: cs) := by
  unfold read
  split
  · next hc => exact .ok (word_splits d hc)
  · split
    · next hc => exact number_splits hc
    · split
      · exact .ok (stringLiteral_splits c cs)
      · split
        · next hc =>
          subst hc
          split
          · exact .ok (quotedName_splits cs)
          · exact .ok (stringLiteral_splits '"' cs)
        · split
          · next hc =>
            subst hc
            exact address_splits cs
          · split
            · next hc =>
              rw [Bool.and_eq_true, decide_eq_true_eq] at hc
              obtain ⟨rfl, -⟩ := hc
              exact .ok (pragma_splits cs)
            · exact .ok (mark_splits d c cs)

end Lexed

/-! ### Whole texts -/

/-- What is left after the blanks and comments is an end of the text. -/
theorem Gap.skip_suffix {mode : Gap.Mode} {pos pos' : Nat} {cs rest : List Char}
    (h : Gap.skip mode pos cs = .clear pos' rest) : rest <:+ cs := by
  have two {a b : Char} {cs : List Char} (h : rest <:+ cs) : rest <:+ a :: b :: cs :=
    h.trans ((List.suffix_cons _ _).trans (List.suffix_cons _ _))
  fun_induction Gap.skip mode pos cs with
  | case1 _ _ ih | case2 _ _ ih | case3 _ _ ih | case9 _ _ _ ih | case12 _ _ _ _ ih
  | case13 _ _ _ _ ih => exact two (ih h)
  | case4 _ _ _ _ _ _ _ ih | case7 _ _ _ ih | case10 _ _ _ _ _ ih | case14 _ _ _ _ _ _ _ ih =>
    exact (ih h).trans (List.suffix_cons _ _)
  | case5 | case6 | case8 =>
    cases h
    exact List.suffix_rfl
  | case11 | case15 => cases h

/-- The token was read at some place of the text. -/
def Token.ReadIn (t : Token) (d : Dialect) (source : List Char) : Prop :=
  ∃ c cs x, Lexed.read d c cs = .ok x ∧ t.lexeme = x.lexeme ∧ t.text = String.ofList x.text ∧
    c :: cs <:+ source

theorem Token.ReadIn.mono {t : Token} {d : Dialect} {source rest : List Char}
    (h : t.ReadIn d rest) (hs : rest <:+ source) : t.ReadIn d source := by
  obtain ⟨c, cs, x, hx, lexeme, text, place⟩ := h
  exact ⟨c, cs, x, hx, lexeme, text, place.trans hs⟩

/-- What the scanner comes to next: a comment that never closes, the end of the text, or a token
behind blanks and comments. -/
inductive Scanner.Next (d : Dialect) (s : Scanner) : Token → Scanner → Prop
  | unclosed {start stop : Nat} {opening : String}
      (skips : Gap.skip .blank s.pos s.rest = .unterminated start stop opening) :
      Next d s ⟨.malformed .unterminatedComment, opening, ⟨start, max start stop, Nat.le_max_left ..⟩⟩
        ⟨stop, []⟩
  | ended {pos : Nat} (skips : Gap.skip .blank s.pos s.rest = .clear pos []) :
      Next d s (finish pos) ⟨pos, []⟩
  | token {pos : Nat} {c : Char} {cs : List Char} {x : Lexed}
      (skips : Gap.skip .blank s.pos s.rest = .clear pos (c :: cs)) (read : Lexed.read d c cs = .ok x) :
      Next d s ⟨x.lexeme, String.ofList x.text, ⟨pos, pos + x.text.length, Nat.le_add_right ..⟩⟩
        ⟨pos + x.text.length, x.rest⟩

theorem Scanner.next_eq_ok_iff {d : Dialect} {s s' : Scanner} {t : Token} :
    s.next d = .ok (t, s') ↔ s.Next d t s' := by
  constructor
  · intro h
    unfold next at h
    split at h
    · next skips =>
      cases h
      exact .unclosed skips
    · next skips =>
      cases h
      exact .ended skips
    · next skips =>
      split at h
      · cases h
      · next read =>
        cases h
        exact .token skips read
  · intro h
    unfold next
    cases h with
    | unclosed skips => rw [skips]
    | ended skips => rw [skips]
    | token skips read =>
      rw [skips]
      dsimp only
      rw [read]

/-- No token comes next where what stands behind blanks and comments cannot be read. -/
theorem Scanner.next_eq_error_iff {d : Dialect} {s : Scanner} {f : Fault} :
    s.next d = .error f ↔ ∃ pos c cs, Gap.skip .blank s.pos s.rest = .clear pos (c :: cs) ∧
      Lexed.read d c cs = .error f := by
  unfold next
  constructor
  · intro h
    split at h
    · cases h
    · cases h
    · next pos c cs skips =>
      split at h
      · next read =>
        cases h
        exact ⟨pos, c, cs, skips, read⟩
      · cases h
  · rintro ⟨pos, c, cs, skips, read⟩
    rw [skips]
    dsimp only
    rw [read]

/-- The next token ends the text, stands for a comment that never closes, or is read from what is
left; and what is left after it is an end of what was. -/
theorem Scanner.next_readIn {d : Dialect} {s s' : Scanner} {t : Token}
    (h : s.next d = .ok (t, s')) :
    (t.lexeme = .finish ∨ t.lexeme = .malformed .unterminatedComment ∨ t.ReadIn d s.rest) ∧
      s'.rest <:+ s.rest := by
  cases next_eq_ok_iff.1 h with
  | unclosed => exact ⟨.inr (.inl rfl), List.nil_suffix⟩
  | ended => exact ⟨.inl rfl, List.nil_suffix⟩
  | @token pos c cs x skips read =>
    have place := Gap.skip_suffix skips
    obtain ⟨-, split⟩ := Lexed.read_splits d c cs x read
    exact ⟨.inr (.inr ⟨c, cs, x, read, rfl, rfl, place⟩), List.IsSuffix.trans ⟨x.text, split⟩ place⟩

/-- A token of a text ends it, stands for a comment that never closes, or was read in it. -/
theorem Scanner.readIn_of_mem_run {d : Dialect} {n : Nat} {s : Scanner} {t : Token}
    (h : t ∈ (s.run d n).1) :
    t.lexeme = .finish ∨ t.lexeme = .malformed .unterminatedComment ∨ t.ReadIn d s.rest := by
  -- A token that is found later is read in a later rest, which is an end of this one.
  induction n generalizing s with
  | zero =>
    obtain rfl : t = finish s.pos := List.mem_singleton.1 h
    exact .inl rfl
  | succ n ih =>
    rw [Scanner.run] at h
    split at h
    · cases h
    · next t' s' hnext =>
      obtain ⟨first, rest⟩ := Scanner.next_readIn hnext
      split at h
      · obtain rfl : t = t' := List.mem_singleton.1 h
        exact first
      · obtain rfl | later := List.mem_cons.1 h
        · exact first
        · obtain hf | hm | hr := ih later
          · exact .inl hf
          · exact .inr (.inl hm)
          · exact .inr (.inr (hr.mono rest))

theorem Scanner.start_suffix (source : List Char) : (Scanner.start source).rest <:+ source := by
  unfold Scanner.start
  split
  · exact List.suffix_cons _ _
  · exact List.suffix_rfl

/-- A token of a text ends it, stands for a comment that never closes, or was read in it. -/
theorem readIn_of_mem_scan {d : Dialect} {source : List Char} {t : Token}
    (h : t ∈ (scan d source).1) :
    t.lexeme = .finish ∨ t.lexeme = .malformed .unterminatedComment ∨ t.ReadIn d source := by
  obtain hf | hm | hr := Scanner.readIn_of_mem_run h
  · exact .inl hf
  · exact .inr (.inl hm)
  · exact .inr (.inr (hr.mono (Scanner.start_suffix source)))

end Plc
