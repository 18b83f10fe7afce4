/-
String literals are read unit by unit.

Between its quotes a string is a row of units: plain characters, doubled quotes, and `$` followed by
a sign or by the number of a character.  Units of different kinds may stand next to each other
in any order, and each is read as if it stood alone.

* `StringUnit` — a unit, with what is written for it and what it stands for;
* `Lexed.stringBody_unit` — one unit is read, whatever comes after it;
* `Lexed.stringBody_inside` — a row of units is read up to the quote that closes it;
* `string_literals` — a literal is one token whose value is what its units stand for, and every
  string is the value of a literal.
-/
import Mathlib.Algebra.Group.Nat.Defs
import Plc.Proofs.Token.Stretch

namespace Plc

/-! ### Hexadecimal numbers -/

namespace Text

theorem hexValue?_lt {c : Char} {n : Nat} (h : hexValue? c = some n) : n < 16 := by
  unfold hexValue? at h
  split at h
  · next digit =>
    simp only [isAsciiDigit, Bool.and_eq_true, decide_eq_true_eq] at digit
    have high : c.toNat ≤ 57 := digit.2
    cases h
    omega
  · split at h
    · next letter =>
      simp only [Bool.and_eq_true, decide_eq_true_eq] at letter
      have high : c.toNat ≤ 102 := letter.2
      cases h
      omega
    · split at h
      · next letter =>
        simp only [Bool.and_eq_true, decide_eq_true_eq] at letter
        have high : c.toNat ≤ 70 := letter.2
        cases h
        omega
      · cases h

/-- A number of so many hexadecimal digits is less than sixteen to the power of their number. -/
theorem natOfHex_lt (digits : List Char) : natOfHex 16 digits < 16 ^ digits.length := by
  -- the digits are read from the left, so the number read so far is general
  have run : ∀ (cs : List Char) (n : Nat), (cs.filterMap hexValue?).foldl (fun n d => 16 * n + d) n <
      (n + 1) * 16 ^ cs.length := by
    intro cs
    induction cs with
    | nil =>
      intro n
      simp
    | cons c cs ih =>
      intro n
      rw [List.length_cons, Nat.pow_succ, Nat.mul_comm _ 16, ← Nat.mul_assoc]
      cases hc : hexValue? c with
      | none =>
        rw [List.filterMap_cons_none hc]
        refine Nat.lt_of_lt_of_le (ih n) (Nat.mul_le_mul_right _ ?_)
        omega
      | some d =>
        have small := hexValue?_lt hc
        rw [List.filterMap_cons_some hc, List.foldl_cons]
        refine Nat.lt_of_lt_of_le (ih (16 * n + d)) (Nat.mul_le_mul_right _ ?_)
        omega
  have whole := run digits 0
  rwa [Nat.zero_add, Nat.one_mul] at whole

end Text

open Text

/-! ### Units -/

/-- What may follow a `$`, and what the two stand for. -/
def escapeSigns : List (Char × Char) := [
  ('L', '\n'), ('l', '\n'), ('N', '\n'), ('n', '\n'), ('P', '\x0c'), ('p', '\x0c'), ('R', '\r'),
  ('r', '\r'), ('T', '\t'), ('t', '\t'), ('$', '$'), ('\'', '\''), ('"', '"')]

/-- The number is half of a pair that stands for one character, and belongs to no character. -/
def IsSurrogate (n : Nat) : Prop :=
  0xD800 ≤ n ∧ n ≤ 0xDFFF

instance : DecidablePred IsSurrogate := fun n =>
  inferInstanceAs (Decidable (0xD800 ≤ n ∧ n ≤ 0xDFFF))

/-- The digits after a `$` are the number of a character when it is no surrogate. -/
theorem isValidChar_of_digits {quote : Char} {digits : List Char}
    (width : digits.length = Lexed.hexWidth quote) (whole : ¬ IsSurrogate (natOfHex 16 digits)) :
    (natOfHex 16 digits).isValidChar := by
  have four : digits.length ≤ 4 := by
    rw [width, Lexed.hexWidth]
    split <;> omega
  have small : natOfHex 16 digits < 16 ^ 4 :=
    Nat.lt_of_lt_of_le (natOfHex_lt digits) (Nat.pow_le_pow_right (by decide) four)
  unfold IsSurrogate at whole
  show natOfHex 16 digits < 0xD800 ∨ 0xDFFF < natOfHex 16 digits ∧ natOfHex 16 digits < 0x110000
  omega

/-- A unit of a string between two of the given quotes. -/
inductive StringUnit (quote : Char) where
  /-- A character that stands for itself. -/
  | plain (c : Char) (within : c ≠ quote) (bare : c ≠ '$')
  /-- A quote that does not close the string. -/
  | doubled
  /-- A `$` and a sign. -/
  | sign (letter meaning : Char) (listed : (letter, meaning) ∈ escapeSigns)
  /-- A `$` and the number of a character in hexadecimal. -/
  | code (digits : List Char) (width : digits.length = Lexed.hexWidth quote)
    (hex : ∀ c ∈ digits, isHexDigit c = true) (whole : ¬ IsSurrogate (natOfHex 16 digits))

namespace StringUnit

variable {quote : Char}

/-- What is written for the unit. -/
def text : StringUnit quote → List Char
  | .plain c _ _ => [c]
  | .doubled => [quote, quote]
  | .sign letter _ _ => ['$', letter]
  | .code digits _ _ _ => '$' :: digits

/-- What the unit stands for. -/
def meaning : StringUnit quote → Char
  | .plain c _ _ => c
  | .doubled => quote
  | .sign _ meaning _ => meaning
  | .code digits width _ whole => .ofNatAux (natOfHex 16 digits) (isValidChar_of_digits width whole)

/-- What is written for some units. -/
def inside (units : List (StringUnit quote)) : List Char :=
  units.flatMap text

/-- The units between their quotes. -/
def literal (units : List (StringUnit quote)) : List Char :=
  quote :: (inside units ++ [quote])

/-- What some units stand for. -/
def value (units : List (StringUnit quote)) : String :=
  String.ofList (units.map meaning)

/-- The literal as a word: a string in single quotes and a wide string in double ones. -/
def word (units : List (StringUnit quote)) : Word :=
  ⟨if quote = '"' then .wideString (value units) else .string (value units),
    String.ofList (literal units)⟩

theorem inside_cons (u : StringUnit quote) (units : List (StringUnit quote)) :
    inside (u :: units) = u.text ++ inside units :=
  List.flatMap_cons

/-- A unit that stands for the character. -/
def ofChar (c : Char) : StringUnit quote :=
  if within : c = quote then .doubled
  else if bare : c = '$' then .sign '$' '$' (by decide)
  else .plain c within bare

theorem meaning_ofChar (c : Char) : (ofChar c : StringUnit quote).meaning = c := by
  unfold ofChar
  split
  · next within => exact within.symm
  · split
    · next bare => exact bare.symm
    · rfl

/-- Every string is what some units stand for. -/
theorem exists_value (s : String) : ∃ units : List (StringUnit quote), value units = s := by
  refine ⟨s.toList.map ofChar, ?_⟩
  have same : (meaning ∘ (ofChar : Char → StringUnit quote)) = id := funext meaning_ofChar
  rw [value, List.map_map, same, List.map_id, String.ofList_toList]

end StringUnit

/-! ### Reading units -/

namespace Lexed

open StringUnit

variable {quote : Char}

theorem escape?_eq_some_iff {letter meaning : Char} :
    escape? letter = some meaning ↔ (letter, meaning) ∈ escapeSigns := by
  constructor
  · intro h
    unfold escape? at h
    split at h <;> cases h <;> decide
  · intro listed
    have all : escapeSigns.all (fun p => escape? p.1 == some p.2) = true := by decide
    exact eq_of_beq (List.all_eq_true.1 all _ listed)

/-- No hexadecimal digit is a sign. -/
theorem escape?_of_isHexDigit {c : Char} (hex : isHexDigit c = true) : escape? c = none := by
  have others : escapeSigns.all (fun p => !isHexDigit p.1) = true := by decide
  rw [Option.eq_none_iff_forall_ne_some]
  intro x hx
  have other := List.all_eq_true.1 others _ (escape?_eq_some_iff.1 hx)
  rw [hex] at other
  cases other

/-- The characters of a unit behind its first are passed over. -/
theorem stringBody_skip (quote : Char) (more cs : List Char) :
    stringBody quote more.length (more ++ cs) =
      (stringBody quote 0 cs).map fun (text, value, rest) => (more ++ text, value, rest) := by
  induction more with
  | nil => simp
  | cons c more ih =>
    rw [List.length_cons, List.cons_append, stringBody, ih, Option.map_map]
    rfl

/-- The first character of a unit and those behind it tell what the unit is. -/
theorem unit?_text (known : quote = '\'' ∨ quote = '"') (u : StringUnit quote) (cs : List Char) :
    ∃ c more, u.text = c :: more ∧ unit? quote c (more ++ cs) = some (u.meaning, more.length) := by
  have other : '$' ≠ quote := by
    rintro rfl
    revert known
    decide
  -- One case for each form of a unit, in the order in which the decoder tries them.
  cases u with
  | plain c within bare =>
    refine ⟨c, [], rfl, ?_⟩
    rw [unit?, if_neg within, if_neg bare]
    rfl
  | doubled =>
    refine ⟨quote, [quote], rfl, ?_⟩
    rw [unit?, if_pos rfl]
    exact if_pos rfl
  | sign letter meaning listed =>
    refine ⟨'$', [letter], rfl, ?_⟩
    have head : ([letter] ++ cs).head?.bind escape? = some meaning := escape?_eq_some_iff.2 listed
    rw [unit?, if_neg other, if_pos rfl, head]
    rfl
  -- The digits are no sign, so the code is tried; all of it is there.
  | code digits width hex whole =>
    refine ⟨'$', digits, rfl, ?_⟩
    have head : (digits ++ cs).head?.bind escape? = none := by
      cases digits with
      | nil =>
        rw [hexWidth] at width
        split at width <;> cases width
      | cons d digits => exact escape?_of_isHexDigit (hex d List.mem_cons_self)
    have number : hexEscape? quote (digits ++ cs) = some (Char.ofNat (natOfHex 16 digits)) := by
      have all : digits.all isHexDigit = true := List.all_eq_true.2 hex
      unfold hexEscape?
      rw [← width, List.take_left]
      simp [all]
    rw [unit?, if_neg other, if_pos rfl, head, number, width, Char.ofNat,
      dif_pos (isValidChar_of_digits width whole)]
    rfl

/-- One unit is read, whatever comes after it. -/
theorem stringBody_unit (known : quote = '\'' ∨ quote = '"') (u : StringUnit quote) (cs : List Char) :
    stringBody quote 0 (u.text ++ cs) = (stringBody quote 0 cs).map fun (text, value, rest) =>
      (u.text ++ text, u.meaning :: value, rest) := by
  obtain ⟨c, more, parts, unit⟩ := unit?_text known u cs
  rw [parts, List.cons_append, stringBody, unit]
  show (stringBody quote more.length (more ++ cs)).map _ = _
  rw [stringBody_skip, Option.map_map]
  rfl

/-- A row of units is read up to the quote that closes it. -/
theorem stringBody_inside (known : quote = '\'' ∨ quote = '"') (units : List (StringUnit quote))
    {rest : List Char} (closes : rest.head? ≠ some quote) :
    stringBody quote 0 (inside units ++ quote :: rest) =
      some (inside units ++ [quote], units.map meaning, rest) := by
  induction units with
  | nil =>
    show stringBody quote 0 (quote :: rest) = some ([quote], [], rest)
    have last : unit? quote quote rest = none := by rw [unit?, if_pos rfl, if_neg closes]
    rw [stringBody, last]
  | cons u units ih =>
    rw [inside_cons, List.append_assoc, stringBody_unit known, ih]
    simp

end Lexed

/-! ### Literals -/

open StringUnit

variable {d : Dialect} {quote : Char}

/-- The quote opens a string, and not a name. -/
def OpensString (d : Dialect) (quote : Char) : Prop :=
  quote = '\'' ∨ quote = '"' ∧ d.quotedNames = false

theorem OpensString.known (opens : OpensString d quote) : quote = '\'' ∨ quote = '"' :=
  opens.imp_right And.left

/-- Where a string is opened, it is read. -/
theorem OpensString.read (opens : OpensString d quote) (cs : List Char) :
    Lexed.read d quote cs = .ok (Lexed.stringLiteral quote cs) := by
  rcases opens with rfl | ⟨rfl, names⟩
  · rfl
  · unfold Lexed.read
    rw [names]
    rfl

/-- A literal stands in front of everything but the quote that it ends with. -/
theorem OpensString.stands (opens : OpensString d quote) (units : List (StringUnit quote))
    {rest : List Char} (closes : rest.head? ≠ some quote) : (word units).Stands d rest := by
  have text : (word units).text.toList = quote :: (inside units ++ [quote]) := String.toList_ofList
  have bare : quote ≠ '/' ∧ quote ≠ '(' ∧ quote ≠ '\ufeff' ∧ isBlank quote = false := by
    rcases opens.known with rfl | rfl <;> decide
  obtain ⟨slash, paren, mark, blank⟩ := bare
  refine ⟨fun pos => ?_, ⟨quote, inside units ++ [quote], text, mark, ?_⟩, ?_⟩
  · rw [text]
    exact Gap.skip_clear blank (absurd · slash) (absurd · paren) pos
  · rw [opens.read, List.append_assoc, List.singleton_append, Lexed.stringLiteral,
      Lexed.stringBody_inside opens.known units closes]
    rfl
  · show (if quote = '"' then Lexeme.wideString (value units) else .string (value units)) ≠ .finish ∧
      ∀ p, (if quote = '"' then Lexeme.wideString (value units) else .string (value units)) ≠ .pragma p
    split <;> simp

/-- A literal alone is cut into one token. -/
theorem OpensString.tokens (opens : OpensString d quote) (units : List (StringUnit quote)) :
    Plc.tokens d (literal units) =
      .ok [(word units).token 0, Scanner.finish (literal units).length] := by
  have text : (word units).text.toList = literal units := String.toList_ofList
  have stands : (word units).Stands d [] := opens.stands units (by simp)
  have next := stands.next 0
  rw [text, List.append_nil, Nat.zero_add] at next
  have goes : ((word units).token 0).lexeme.isFinish = false := by
    show (if quote = '"' then Lexeme.wideString (value units) else .string (value units)).isFinish = false
    split <;> rfl
  have scans : Scans d ⟨0, literal units⟩ [(word units).token 0] ⟨(literal units).length, []⟩ :=
    .cons next goes (.nil _)
  have plain : (literal units).head? ≠ some '\ufeff' := by
    rcases opens.known with rfl | rfl <;> simp [literal]
  have run := scans.run rfl ((literal units).length + 1) (by simp [literal])
  unfold Plc.tokens scan
  rw [Scanner.start_plain plain, run]
  rfl

/-- The units between two quotes are one token of a text, when the quote does not come once more
behind them: its value is what the units stand for, one after another.  Every string is the value
of such a literal. -/
theorem string_literals (opens : OpensString d quote) :
    (∀ (units : List (StringUnit quote)) (rest : List Char) (pos : Nat), rest.head? ≠ some quote →
      (⟨pos, literal units ++ rest⟩ : Scanner).next d =
        .ok ((word units).token pos, ⟨pos + (literal units).length, rest⟩)) ∧
    ∀ s : String, ∃ units : List (StringUnit quote), value units = s ∧
      tokens d (literal units) =
        .ok [(word units).token 0, Scanner.finish (literal units).length] := by
  refine ⟨fun units rest pos closes => ?_, fun s => ?_⟩
  · have text : (word units).text.toList = literal units := String.toList_ofList
    rw [← text]
    exact (opens.stands units closes).next pos
  · obtain ⟨units, same⟩ : ∃ units : List (StringUnit quote), value units = s := exists_value s
    exact ⟨units, same, opens.tokens units⟩

/-- A sign before a doubled quote, and a number before a digit that does not belong to it. -/
def adjacentUnits : List (StringUnit '\'') := [
  .sign '\'' '\'' (by decide), .doubled, .code ['4', '1'] rfl (List.all_eq_true.1 rfl) (by decide),
  .plain 'F' (by decide) (by decide), .doubled]

/-- The last quote before the semicolon closes the string. -/
theorem string_literals_adjacent : OpensString .generic '\'' ∧
    (⟨7, "'$'''$41F''';".toList⟩ : Scanner).next .generic =
      .ok (⟨.string "''AF'", "'$'''$41F'''", ⟨7, 19, by decide⟩⟩, ⟨19, [';']⟩) ∧
    ∃ units : List (StringUnit '\''), value units = "''" ∧
      tokens .generic (literal units) =
        .ok [(word units).token 0, Scanner.finish (literal units).length] :=
  ⟨Or.inl rfl, (string_literals (Or.inl rfl)).1 adjacentUnits [';'] 7 (by decide),
    (string_literals (Or.inl rfl)).2 "''"⟩

end Plc
