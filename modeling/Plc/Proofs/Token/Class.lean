/-
What the class of a token says of its characters.

* `Token.dotless` — no point is written in a name or an integer;
* `Token.reserved`, `Token.quoted` — a reserved word or a quoted name of a text is one in its dialect.
-/
import Plc.Proofs.Token.Stretch

namespace Plc

open Text

namespace Lexed

/-- A lexeme of the dialect that is neither a name nor an integer nor a reserved word, `AND`
aside.  Pragmas, quoted names and the marks that assign the result of an operation are of the
dialects that have them, and a quoted name holds no quote. -/
def isSpecial (d : Dialect) : Lexeme → Bool
  | .name | .integer _ => false
  | .keyword k => k == .AND
  | .quotedName n => d.quotedNames && !n.toList.contains '"'
  | .mark .plusAssign | .mark .minusAssign | .mark .starAssign | .mark .slashAssign =>
    d.compoundAssignment
  | .pragma _ => d.pragmas
  | _ => true

theorem isSpecial_mark (d : Dialect) (c : Char) (cs : List Char) :
    isSpecial d (mark d c cs).lexeme = true := by
  unfold mark
  split
  · next text lexeme h =>
    have listed := List.mem_of_find?_eq_some h
    have plain : ∀ m ∈ plainMarks, isSpecial d m.2 = true := by
      simp [plainMarks, isSpecial]
    unfold marks at listed
    split at listed
    · next compound =>
      have all : ∀ m ∈ compoundMarks ++ plainMarks, isSpecial d m.2 = true := by
        simp [compoundMarks, plainMarks, isSpecial, compound]
      exact all _ listed
    · exact plain _ listed
  · rfl

theorem isSpecial_timeLexeme (d : Dialect) {word payload : String} {literal : String → Lexeme}
    (h : timeLexeme? word = some literal) : isSpecial d (literal payload) = true := by
  unfold timeLexeme? at h
  split at h
  · cases h
    rfl
  · split at h
    · cases h
      rfl
    · split at h
      · cases h
        rfl
      · split at h
        · cases h
          rfl
        · cases h

theorem isSpecial_stringLiteral (d : Dialect) (quote : Char) (cs : List Char) :
    isSpecial d (stringLiteral quote cs).lexeme = true := by
  unfold stringLiteral
  split
  · dsimp only
    split <;> rfl
  · rfl

theorem isSpecial_address (d : Dialect) {cs : List Char} {x : Lexed} (h : address cs = .ok x) :
    isSpecial d x.lexeme = true := by
  -- An area with digits gives an address, and one without them an error. Both are special.
  have tail (lead : List Char) (area : Address.Area) (size : Address.Size) (cs : List Char)
      (h : addressTail lead area size cs = .ok x) : isSpecial d x.lexeme = true := by
    unfold addressTail at h
    dsimp only at h
    split at h
    · cases h
      rfl
    · obtain ⟨bit, -, h⟩ := bind_eq_ok h
      obtain ⟨byte, -, h⟩ := bind_eq_ok h
      cases h
      rfl
  unfold address at h
  split at h
  · split at h
    · split at h
      · split at h
        · exact tail _ _ _ _ h
        · exact tail _ _ _ _ h
      · exact tail _ _ _ _ h
    · cases h
      rfl
  · cases h
    rfl

theorem isSpecial_quotedName {d : Dialect} (hd : d.quotedNames = true) (cs : List Char) :
    isSpecial d (quotedName cs).lexeme = true := by
  unfold quotedName
  split
  · next name rest h =>
    have inside : '"' ∉ name := by
      unfold upTo? at h
      split at h
      · cases h
        exact fun quote => absurd (List.mem_takeWhile_imp quote) (by decide)
      · cases h
    simp [isSpecial, hd, inside]
  · rfl

/-- A token is a word, a number, or of a class of its own. -/
theorem read_cases {d : Dialect} {c : Char} {cs : List Char} {x : Lexed}
    (h : read d c cs = .ok x) :
    (∃ text rest, x = plainWord d (c :: text) rest ∧ isNameStart c = true ∧
        ∀ e ∈ c :: text, isNameChar e = true) ∨
      number (c :: cs) = .ok x ∨ isSpecial d x.lexeme = true := by
  unfold read at h
  -- The cases are those of the reading. All but words and numbers are special by their kind.
  split at h
  · next start =>
    cases h
    unfold word
    dsimp only
    split
    · next literal known => exact .inr (.inr (isSpecial_timeLexeme d known))
    · have first : (c :: cs).takeWhile isNameChar = c :: cs.takeWhile isNameChar :=
        List.takeWhile_cons_of_pos (isNameChar_of_isNameStart start)
      rw [first]
      refine .inl ⟨_, _, rfl, start, fun e he => ?_⟩
      rw [← first] at he
      exact List.mem_takeWhile_imp he
  · split at h
    · exact .inr (.inl h)
    · refine .inr (.inr ?_)
      split at h
      · cases h
        exact isSpecial_stringLiteral _ _ _
      · split at h
        · cases h
          split
          · next quoted => exact isSpecial_quotedName quoted _
          · exact isSpecial_stringLiteral _ _ _
        · split at h
          · exact isSpecial_address d h
          · split at h
            · next braces =>
              cases h
              rw [Bool.and_eq_true] at braces
              unfold pragma
              split
              · exact braces.2
              · rfl
            · cases h
              exact isSpecial_mark _ _ _

/-- A number is an integer without a point, or of a class of its own. -/
theorem number_cases (d : Dialect) {cs : List Char} {x : Lexed} (h : number cs = .ok x) :
    ('.' ∉ x.text ∧ ∃ n, x.lexeme = .integer n) ∨ isSpecial d x.lexeme = true := by
  have whole : '.' ∉ cs.takeWhile (isGrouped isAsciiDigit) := by
    intro point
    exact absurd (List.mem_takeWhile_imp point) (by decide)
  unfold number at h
  dsimp only at h
  -- With a base no point is taken; without one an integer has neither a fraction nor an exponent.
  split at h
  · next cs' _ =>
    have dotless : '.' ∉ x.text := by
      rw [(basedNumber_parts h).1, List.mem_append, List.mem_cons]
      rintro (point | point | point)
      · exact whole point
      · cases point
      · exact absurd (List.mem_takeWhile_imp point) (by decide)
    unfold basedNumber at h
    obtain ⟨radix, -, h⟩ := bind_eq_ok h
    obtain ⟨lexeme, based, h⟩ := bind_eq_ok h
    cases h
    obtain ⟨n, rfl⟩ | rfl := basedLexeme_cases based
    · exact .inl ⟨dotless, n, rfl⟩
    · exact .inr rfl
  · unfold decimalNumber at h
    dsimp only at h
    split at h
    · cases h
      exact .inr rfl
    · split at h
      · next frac exp =>
        obtain ⟨n, -, h⟩ := bind_eq_ok h
        cases h
        refine .inl ⟨?_, n, rfl⟩
        simp [frac, exp, fractionText, exponentText, whole]
      · split at h
        · cases h
        · cases h
          exact .inr rfl
      · cases h
        exact .inr rfl

theorem read_dotless {d : Dialect} {c : Char} {cs : List Char} {x : Lexed}
    (h : read d c cs = .ok x) (plain : isSpecial d x.lexeme = false) : '.' ∉ x.text := by
  obtain ⟨text, rest, rfl, -, all⟩ | h | special := read_cases h
  · rw [plainWord_text]
    exact fun point => absurd (all _ point) (by decide)
  · obtain ⟨dotless, -⟩ | special := number_cases d h
    · exact dotless
    · exact absurd special (by simp [plain])
  · exact absurd special (by simp [plain])

theorem read_reserved {d : Dialect} {c : Char} {cs : List Char} {x : Lexed} {k : Keyword}
    (h : read d c cs = .ok x) (hx : x.lexeme = .keyword k) : d.reserves k = true := by
  have conjunction : isSpecial d (.keyword k) = true → d.reserves k = true := by
    intro special
    obtain rfl : k = .AND := by simpa [isSpecial] using special
    rfl
  obtain ⟨text, rest, rfl, -⟩ | h | special := read_cases h
  · unfold plainWord at hx
    split at hx
    · next known =>
      cases hx
      exact (Option.filter_eq_some_iff.1 known).2
    · cases hx
  · obtain ⟨-, n, integer⟩ | special := number_cases d h
    · rw [integer] at hx
      cases hx
    · exact conjunction (hx ▸ special)
  · exact conjunction (hx ▸ special)

end Lexed

namespace Token

variable {d : Dialect} {source : List Char} {ts : List Token} {t : Token}

/-- A token of a text was read in it, ends it, or stands for a comment that never closes. -/
theorem readIn_of_tokens (h : tokens d source = .ok ts) (ht : t ∈ ts) :
    t.lexeme = .finish ∨ t.lexeme = .malformed .unterminatedComment ∨ t.ReadIn d source := by
  unfold tokens at h
  split at h
  · next hscan =>
    cases h
    exact readIn_of_mem_scan (hscan ▸ ht)
  · cases h

/-- No point is written in a name or an integer. -/
theorem dotless (h : tokens d source = .ok ts) (ht : t ∈ ts)
    (kind : t.lexeme = .name ∨ ∃ n, t.lexeme = .integer n) : '.' ∉ t.text.toList := by
  have plain : Lexed.isSpecial d t.lexeme = false := by
    obtain name | ⟨n, integer⟩ := kind
    · rw [name]
      rfl
    · rw [integer]
      rfl
  obtain finish | comment | ⟨c, cs, x, hx, lexeme, text, -⟩ := readIn_of_tokens h ht
  · rw [finish] at plain
    cases plain
  · rw [comment] at plain
    cases plain
  · rw [text, String.toList_ofList]
    exact Lexed.read_dotless hx (lexeme ▸ plain)

/-- A reserved word of a text is reserved in its dialect. -/
theorem reserved {k : Keyword} (h : tokens d source = .ok ts) (ht : t ∈ ts)
    (word : t.lexeme = .keyword k) : d.reserves k = true := by
  obtain finish | comment | ⟨c, cs, x, hx, lexeme, -⟩ := readIn_of_tokens h ht
  · rw [finish] at word
    cases word
  · rw [comment] at word
    cases word
  · exact Lexed.read_reserved hx (lexeme ▸ word)

/-- The special lexemes of a text are of its dialect. -/
theorem isSpecial (h : tokens d source = .ok ts) (ht : t ∈ ts) :
    t.lexeme = .name ∨ (∃ n, t.lexeme = .integer n) ∨ (∃ k, t.lexeme = .keyword k) ∨
      Lexed.isSpecial d t.lexeme = true := by
  obtain finish | comment | ⟨c, cs, x, hx, lexeme, -⟩ := readIn_of_tokens h ht
  · exact .inr (.inr (.inr (finish ▸ rfl)))
  · exact .inr (.inr (.inr (comment ▸ rfl)))
  · rw [lexeme]
    obtain ⟨text, rest, rfl, -⟩ | hx | special := Lexed.read_cases hx
    · unfold Lexed.plainWord
      split
      · exact .inr (.inr (.inl ⟨_, rfl⟩))
      · exact .inl rfl
    · obtain ⟨-, integer⟩ | special := Lexed.number_cases d hx
      · exact .inr (.inl integer)
      · exact .inr (.inr (.inr special))
    · exact .inr (.inr (.inr special))

/-- A quoted name stands in a text only where the dialect has quoted names. -/
theorem quoted {n : String} (h : tokens d source = .ok ts) (ht : t ∈ ts)
    (name : t.lexeme = .quotedName n) : d.quotedNames = true := by
  have known := isSpecial h ht
  simp only [name, Lexed.isSpecial, reduceCtorEq, exists_false, false_or, Bool.and_eq_true] at known
  exact known.1

/-- A pragma stands in a text only where the dialect has pragmas. -/
theorem pragmas {p : String} (h : tokens d source = .ok ts) (ht : t ∈ ts)
    (known : t.lexeme = .pragma p) : d.pragmas = true := by
  simpa [known, Lexed.isSpecial] using isSpecial h ht

end Token

end Plc
