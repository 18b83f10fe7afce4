/-
Where the scan ends with a fault.

Unicode knows digits that write no number, such as a superscript two, and digits of other scripts.
The reader of numbers goes by all of them when it looks for an exponent or for the bit of an
address, and then reads the ten of ASCII; so where another digit comes first it has no digits to
make a number of.  And a whole number in decimal has no more than `maxDigits` digits: an integer, a
base and the digits after the base ten, an offset and its bit.  Nothing else ends the scan.

* `ForeignDigit` — a digit that is looked for and not read;
* `IsLong` — digits that are too many for a whole number;
* `Unreadable` — the texts that begin with a number that no token is made of, told without the scanner;
* `Lexed.read_error_iff` — no token can be taken off the front of these texts, and only of these;
* `Scanner.next_error_iff` — so it is after blanks and comments;
* `tokens_cut_iff` — which texts are cut into tokens.
-/
import Plc.Proofs.Token.Separated

namespace Plc

open Text

/-! ### Digits that are not read -/

/-- A digit that is none of the ten digits of ASCII. -/
def ForeignDigit (c : Char) : Prop :=
  isDigit c = true ∧ isAsciiDigit c = false

theorem isDigit_of_isAsciiDigit {c : Char} (h : isAsciiDigit c = true) : isDigit c = true := by
  simp [isDigit, isDecimal, decimalValue?, h]

namespace ForeignDigit

theorem ne {c e : Char} (h : ForeignDigit c) (he : (isDigit e && !isAsciiDigit e) = false) : c ≠ e := by
  rintro rfl
  rw [h.1, h.2] at he
  cases he

/-- An underscore is no digit. -/
theorem not_grouped {c : Char} (h : ForeignDigit c) : Lexed.isGrouped isAsciiDigit c = false := by
  have other : c ≠ '_' := h.ne (by decide)
  simp [Lexed.isGrouped, h.2, other]

end ForeignDigit

/-! ### Texts that cannot be read -/

/-- ASCII digits and the underscores that group them, a digit first. -/
structure IsRun (run : List Char) : Prop where
  digit : ∃ c ∈ run.head?, isAsciiDigit c = true
  grouped : ∀ c ∈ run, Lexed.isGrouped isAsciiDigit c = true

/-- More digits than a whole number has; underscores do not count. -/
def IsLong (run : List Char) : Prop :=
  maxDigits < run.countP (· != '_')

/-- The mark and the sign of an exponent. -/
inductive IsExponentMark : List Char → Prop
  | mk {mark : Char} {sign : List Char} (marked : mark = 'e' ∨ mark = 'E')
      (signed : sign = [] ∨ sign = ['+'] ∨ sign = ['-']) : IsExponentMark (mark :: sign)

/-- The mark and the sign of an exponent, and then a foreign digit. -/
inductive ForeignExponent : List Char → Prop
  | mk {lead rest : List Char} {c : Char} (mark : IsExponentMark lead) (foreign : ForeignDigit c) :
      ForeignExponent (lead ++ c :: rest)

/-- Digits before this text are the whole of their number: no digit and no `#` follows them, and no
digit follows a point, or the mark and the sign of an exponent, that does. -/
structure EndsWhole (rest : List Char) : Prop where
  head : ∀ c ∈ rest.head?, Lexed.isGrouped isAsciiDigit c = false ∧ c ≠ '#'
  point : ∀ c more, rest = '.' :: c :: more → isDigit c = false
  exponent : ∀ lead c more, IsExponentMark lead → rest = lead ++ c :: more → isDigit c = false

/-- An offset that is too long, or with a point and then a foreign digit or a bit that is too long. -/
inductive UnreadableOffset : List Char → Prop
  | foreign {c : Char} {digits rest : List Char} (some_digit : digits ≠ [])
      (ascii : ∀ x ∈ digits, isAsciiDigit x = true) (foreign : ForeignDigit c) :
      UnreadableOffset (digits ++ '.' :: c :: rest)
  | long {digits rest : List Char} (ascii : ∀ x ∈ digits, isAsciiDigit x = true) (long : IsLong digits)
      (ends : ∀ x ∈ rest.head?, isAsciiDigit x = false) : UnreadableOffset (digits ++ rest)
  | longBit {digits bits rest : List Char} (some_digit : digits ≠ [])
      (ascii : ∀ x ∈ digits, isAsciiDigit x = true) (bits_ascii : ∀ x ∈ bits, isAsciiDigit x = true)
      (long : IsLong bits) (ends : ∀ x ∈ rest.head?, isAsciiDigit x = false) :
      UnreadableOffset (digits ++ '.' :: (bits ++ rest))

/-- The text begins with a number whose exponent begins with a foreign digit, with an integer or a base
that is too long, with too many digits after the base ten, or with an address whose offset is
unreadable.  A number in which underscores are grouped badly is malformed, whatever its digits. -/
inductive Unreadable : List Char → Prop
  | exponent {whole frac tail : List Char} (run : IsRun whole)
      (fraction : frac = [] ∨ ∃ digits, frac = '.' :: digits ∧ IsRun digits)
      (grouped : ¬ ['_', '_'] <:+: whole ++ frac) (exponent : ForeignExponent tail) :
      Unreadable (whole ++ (frac ++ tail))
  | integer {whole rest : List Char} (run : IsRun whole) (grouped : ¬ ['_', '_'] <:+: whole)
      (closed : whole.getLast? ≠ some '_') (long : IsLong whole) (ends : EndsWhole rest) :
      Unreadable (whole ++ rest)
  | base {base rest : List Char} (run : IsRun base) (long : IsLong base) :
      Unreadable (base ++ '#' :: rest)
  | based {base digits rest : List Char} (run : IsRun base) (ten : natOfDigits base = 10)
      (grouped : ∀ c ∈ digits, Lexed.isGrouped isAsciiDigit c = true) (long : IsLong digits)
      (ends : ∀ c ∈ rest.head?, Lexed.isGrouped isHexDigit c = false) :
      Unreadable (base ++ '#' :: (digits ++ rest))
  | address {area : Char} {size tail : List Char} (known : (Lexed.area? area).isSome = true)
      (sized : size = [] ∨ ∃ s, size = [s] ∧ (Lexed.size? s).isSome = true)
      (offset : UnreadableOffset tail) : Unreadable ('%' :: area :: (size ++ tail))

theorem IsRun.begins {run : List Char} (h : IsRun run) (rest : List Char) :
    ∃ c cs, run ++ rest = c :: cs ∧ isAsciiDigit c = true := by
  obtain ⟨c, hc, digit⟩ := h.digit
  obtain ⟨more, rfl⟩ := List.head?_eq_some_iff.1 hc
  exact ⟨c, _, rfl, digit⟩

theorem IsLong.ne_nil {run : List Char} (h : IsLong run) : run ≠ [] := by
  rintro rfl
  cases h

/-- The numbers that no digits make: there are none, or too many. -/
theorem decimal?_eq_none {cs : List Char} :
    decimal? cs = none ↔ (∀ c ∈ cs, c = '_') ∨ IsLong cs := by
  unfold decimal? IsLong
  dsimp only
  rw [ite_eq_left_iff]
  simp [List.countP_eq_zero, or_iff_not_imp_left]

/-- A run has a digit, so that only too many of them make no number. -/
theorem IsRun.decimal?_eq_none {run : List Char} (h : IsRun run) : decimal? run = none ↔ IsLong run := by
  rw [Plc.decimal?_eq_none, or_iff_right]
  intro underscores
  obtain ⟨c, hc, digit⟩ := h.digit
  rw [underscores c (List.mem_of_mem_head? hc)] at digit
  cases digit

/-- An unreadable offset begins with a digit. -/
theorem UnreadableOffset.begins {cs : List Char} (h : UnreadableOffset cs) :
    ∃ c tail, cs = c :: tail ∧ isAsciiDigit c = true := by
  have run {digits : List Char} (some_digit : digits ≠ [])
      (ascii : ∀ x ∈ digits, isAsciiDigit x = true) (rest : List Char) :
      ∃ c tail, digits ++ rest = c :: tail ∧ isAsciiDigit c = true := by
    obtain ⟨c, more, rfl⟩ := List.exists_cons_of_ne_nil some_digit
    exact ⟨c, more ++ rest, rfl, ascii c List.mem_cons_self⟩
  cases h with
  | foreign some_digit ascii | longBit some_digit ascii => exact run some_digit ascii _
  | long ascii long => exact run long.ne_nil ascii _

/-- What stands first in these texts is neither a blank nor the mark of a comment. -/
theorem Unreadable.begins {text : List Char} (h : Unreadable text) :
    ∃ c cs, text = c :: cs ∧ (isAsciiDigit c = true ∨ c = '%') := by
  have number {digits : List Char} (run : IsRun digits) (rest : List Char) :
      ∃ c cs, digits ++ rest = c :: cs ∧ (isAsciiDigit c = true ∨ c = '%') := by
    obtain ⟨c, cs, same, digit⟩ := run.begins rest
    exact ⟨c, cs, same, .inl digit⟩
  cases h with
  | exponent run | integer run | base run | based run => exact number run _
  | address => exact ⟨'%', _, rfl, .inr rfl⟩

namespace Lexed

/-! ### Underscores -/

theorem isBadlyGrouped_of_not_mem {cs : List Char} (clean : '_' ∉ cs) : isBadlyGrouped cs = false := by
  fun_induction isBadlyGrouped cs with
  | case1 => rfl
  | case2 | case3 => simp at clean
  | case4 c cs _ _ ih => exact ih (mt (List.mem_cons_of_mem _) clean)

/-- Before a text without underscores the digits are grouped badly by two underscores in a row; where
nothing comes after them, by one at the end as well. -/
theorem isBadlyGrouped_append (cs : List Char) {tail : List Char} (clean : '_' ∉ tail) :
    isBadlyGrouped (cs ++ tail) = true ↔
      ['_', '_'] <:+: cs ∨ tail = [] ∧ cs.getLast? = some '_' := by
  -- Induction on the characters in front, where two of them are looked at in each step.
  induction cs with
  | nil => simp [isBadlyGrouped_of_not_mem clean]
  | cons c cs ih =>
    rw [List.cons_append, List.infix_cons_iff, Gap.two_prefix_iff]
    cases cs with
    | nil =>
      -- The last character in front is bad only as the very last one, since none after it is an
      -- underscore.
      have alone : isBadlyGrouped (c :: tail) = true ↔ tail = [] ∧ c = '_' := by
        cases tail with
        | nil =>
          by_cases underscore : c = '_'
          · simp [underscore, isBadlyGrouped]
          · have plain : '_' ∉ [c] := by simpa using Ne.symm underscore
            simp [isBadlyGrouped_of_not_mem plain, underscore]
        | cons t tail =>
          have later := isBadlyGrouped_of_not_mem clean
          rw [isBadlyGrouped]
          · simp [later]
          · rintro - ⟨⟩
          · rintro more rfl ⟨⟩
            exact clean List.mem_cons_self
      simpa using alone
    | cons e cs =>
      by_cases two : c = '_' ∧ e = '_'
      · obtain ⟨rfl, rfl⟩ := two
        exact iff_of_true rfl (.inl (.inl ⟨rfl, cs, rfl⟩))
      · have here : isBadlyGrouped (c :: (e :: cs ++ tail)) = isBadlyGrouped (e :: cs ++ tail) := by
          rw [isBadlyGrouped]
          · rintro - ⟨⟩
          · rintro more rfl ⟨⟩
            exact two ⟨rfl, rfl⟩
        have first : ¬ (c = '_' ∧ ∃ more, e :: cs = '_' :: more) := by
          rintro ⟨rfl, more, ⟨⟩⟩
          exact two ⟨rfl, rfl⟩
        rw [here, ih, List.getLast?_cons_cons]
        simp only [first, false_or]

/-! ### Exponents -/

theorem exponentSign_signed (cs : List Char) :
    (exponentSign cs).1 = [] ∨ (exponentSign cs).1 = ['+'] ∨ (exponentSign cs).1 = ['-'] := by
  unfold exponentSign
  split
  · next s cs' =>
    split
    · next signed =>
      rw [Bool.or_eq_true, beq_iff_eq, beq_iff_eq] at signed
      rcases signed with rfl | rfl
      · exact .inr (.inl rfl)
      · exact .inr (.inr rfl)
    · exact .inl rfl
  · exact .inl rfl

theorem exponentSign_eq {sign rest : List Char} {c : Char}
    (signed : sign = [] ∨ sign = ['+'] ∨ sign = ['-']) (digit : isDigit c = true) :
    exponentSign (sign ++ c :: rest) = (sign, c :: rest) := by
  have other {e : Char} (he : isDigit e = false) : c ≠ e := by
    rintro rfl
    rw [digit] at he
    cases he
  rcases signed with rfl | rfl | rfl
  · simp [exponentSign, other (e := '+') (by decide), other (e := '-') (by decide)]
  · rfl
  · rfl

/-- An exponent is found where a digit of any kind follows its mark and sign. -/
theorem exponent_mark {lead : List Char} {c : Char} (mark : IsExponentMark lead)
    (digit : isDigit c = true) (rest : List Char) :
    ∃ m sign, lead = m :: sign ∧ exponent (lead ++ c :: rest) =
      (some ⟨m, sign, (c :: rest).takeWhile (isGrouped isAsciiDigit)⟩,
        (c :: rest).dropWhile (isGrouped isAsciiDigit)) := by
  obtain ⟨marked, signed⟩ := mark
  refine ⟨_, _, rfl, ?_⟩
  have letter := marked
  rw [← beq_iff_eq, ← beq_iff_eq (b := 'E'), ← Bool.or_eq_true] at letter
  rw [List.cons_append, exponent, exponentSign_eq signed digit]
  simp only [letter, List.head?_cons, Option.any_some, digit, Bool.and_self, if_true]

/-- An exponent before a foreign digit is found, and has no digits. -/
theorem exponent_foreign {lead rest : List Char} {c : Char} (mark : IsExponentMark lead)
    (foreign : ForeignDigit c) :
    ∃ m sign, lead = m :: sign ∧ exponent (lead ++ c :: rest) = (some ⟨m, sign, []⟩, c :: rest) := by
  obtain ⟨m, sign, same, found⟩ := exponent_mark mark foreign.1 rest
  have stop : ¬ isGrouped isAsciiDigit c = true := by simp [foreign.not_grouped]
  rw [List.takeWhile_cons_of_neg stop, List.dropWhile_cons_of_neg stop] at found
  exact ⟨m, sign, same, found⟩

theorem not_mem_exponentMark {lead : List Char} (mark : IsExponentMark lead) : '_' ∉ lead := by
  obtain ⟨marked, signed⟩ := mark
  rcases marked with rfl | rfl
  all_goals rcases signed with rfl | rfl | rfl
  all_goals decide

/-- What is found as an exponent begins with its mark and sign, and a digit follows. -/
theorem exponent_some {cs : List Char} {x : Exponent} (found : (exponent cs).1 = some x) :
    ∃ lead c more, IsExponentMark lead ∧ isDigit c = true ∧ cs = lead ++ c :: more ∧
      x.digits = (c :: more).takeWhile (isGrouped isAsciiDigit) := by
  obtain ⟨e, tail, rfl, marked, digit, same⟩ | same := exponent_eq cs
  · rw [same] at found
    cases found
    rw [Bool.or_eq_true, beq_iff_eq, beq_iff_eq] at marked
    have sign := exponentSign_append tail
    cases rest : (exponentSign tail).2 with
    | nil =>
      rw [rest] at digit
      cases digit
    | cons c more =>
      rw [rest] at digit sign
      refine ⟨e :: (exponentSign tail).1, c, more, .mk marked (exponentSign_signed tail), digit, ?_, rfl⟩
      rw [List.cons_append, sign]
  · rw [same] at found
    cases found

theorem foreignExponent_iff {cs : List Char} :
    ForeignExponent cs ↔ ∃ x, (exponent cs).1 = some x ∧ x.digits = [] := by
  constructor
  · rintro ⟨mark, foreign⟩
    obtain ⟨m, sign, -, found⟩ := exponent_foreign mark foreign
    exact ⟨_, congrArg Prod.fst found, rfl⟩
  · rintro ⟨x, found, none⟩
    obtain ⟨lead, c, more, mark, digit, rfl, digits⟩ := exponent_some found
    refine .mk mark ⟨digit, ?_⟩
    by_contra ascii
    rw [Bool.not_eq_false] at ascii
    rw [none, List.takeWhile_cons_of_pos (by simp [isGrouped, ascii])] at digits
    cases digits

/-! ### Fractions -/

/-- The mark of an exponent is no digit. -/
theorem not_grouped_mark {mark : Char} (marked : mark = 'e' ∨ mark = 'E') :
    isGrouped isAsciiDigit mark = false := by
  rcases marked with rfl | rfl
  · rfl
  · rfl

/-- A point and its digits are found before the mark of an exponent. -/
theorem fraction_foreign {frac tail : List Char}
    (fraction : frac = [] ∨ ∃ digits, frac = '.' :: digits ∧ IsRun digits)
    (exponent : ForeignExponent tail) :
    fractionText (Lexed.fraction (frac ++ tail)).1 = frac ∧ (Lexed.fraction (frac ++ tail)).2 = tail := by
  obtain ⟨⟨marked, signed⟩, foreign⟩ := exponent
  rcases fraction with rfl | ⟨digits, rfl, run⟩
  · rcases marked with rfl | rfl
    · exact ⟨rfl, rfl⟩
    · exact ⟨rfl, rfl⟩
  · obtain ⟨d, hd, digit⟩ := run.digit
    obtain ⟨more, rfl⟩ := List.head?_eq_some_iff.1 hd
    rw [List.cons_append, List.cons_append, Lexed.fraction, afterPoint,
      if_pos (isDigit_of_isAsciiDigit digit), ← List.cons_append, takeWhile_run run.grouped,
      dropWhile_run run.grouped]
    · exact ⟨rfl, rfl⟩
    all_goals
      rintro x ⟨⟩
      exact not_grouped_mark marked

/-- What is found before an exponent is a point and its digits, or nothing. -/
theorem fraction_run {cs : List Char} (exponent : ForeignExponent (fraction cs).2) :
    fractionText (fraction cs).1 = [] ∨
      ∃ digits, fractionText (fraction cs).1 = '.' :: digits ∧ IsRun digits := by
  unfold fraction afterPoint
  split
  · next d cs' =>
    split
    · next digit =>
      rw [fraction, afterPoint, if_pos digit] at exponent
      refine .inr ⟨_, rfl, ?_, List.all_eq_true.1 List.all_takeWhile⟩
      by_cases taken : isGrouped isAsciiDigit d = true
      · have other : d ≠ '_' := by
          rintro rfl
          exact absurd digit (by decide)
        rw [List.takeWhile_cons_of_pos taken]
        refine ⟨d, rfl, ?_⟩
        simpa [isGrouped, other] using taken
      · -- a foreign digit after the point would be all that is left
        rw [List.dropWhile_cons_of_neg taken] at exponent
        generalize same : d :: cs' = tail at exponent
        obtain ⟨⟨marked, -⟩, -⟩ := exponent
        cases same
        rcases marked with rfl | rfl
        · exact absurd digit (by decide)
        · exact absurd digit (by decide)
    · exact .inl rfl
  · exact .inl rfl

/-! ### The end of an integer -/

/-- Where digits are the whole of their number, neither a fraction nor an exponent is found. -/
theorem endsWhole_iff {rest : List Char}
    (head : ∀ c ∈ rest.head?, isGrouped isAsciiDigit c = false ∧ c ≠ '#') :
    EndsWhole rest ↔ fraction rest = (none, rest) ∧ exponent rest = (none, rest) := by
  constructor
  · rintro ⟨-, point, after⟩
    constructor
    · obtain ⟨c, more, same, digit, -⟩ | none := afterPoint_eq (isGrouped isAsciiDigit) rest
      · rw [point c more same] at digit
        cases digit
      · exact none
    -- an exponent that is found has a mark with a digit behind it
    · cases found : (exponent rest).1 with
      | none =>
        obtain ⟨_, _, _, _, _, same⟩ | none := exponent_eq rest
        · rw [same] at found
          cases found
        · exact none
      | some x =>
        obtain ⟨lead, c, more, mark, digit, same, -⟩ := exponent_some found
        rw [after lead c more mark same] at digit
        cases digit
  · rintro ⟨frac, exp⟩
    refine ⟨head, fun c more same => ?_, fun lead c more mark same => ?_⟩
    · by_contra digit
      rw [Bool.not_eq_false] at digit
      rw [same, fraction, afterPoint, if_pos digit] at frac
      cases frac
    · by_contra digit
      rw [Bool.not_eq_false] at digit
      obtain ⟨_, _, -, found⟩ := exponent_mark mark digit more
      rw [same, found] at exp
      cases exp

/-! ### Numbers -/

theorem decimal_error_iff {digits : List Char} {f : Fault} :
    decimal digits = .error f ↔ f = .unreadableDigits ∧ decimal? digits = none := by
  unfold decimal
  cases decimal? digits with
  | none => simp [eq_comm]
  | some n => simp

theorem fraction_none {cs : List Char} (h : (fraction cs).1 = none) : fraction cs = (none, cs) := by
  obtain ⟨d, tail, rfl, -, same⟩ | none := afterPoint_eq (isGrouped isAsciiDigit) cs
  · rw [fraction, same] at h
    cases h
  · exact none

theorem exponent_none {cs : List Char} (h : (exponent cs).1 = none) : exponent cs = (none, cs) := by
  obtain ⟨e, tail, rfl, -, -, same⟩ | none := exponent_eq cs
  · rw [same] at h
    cases h
  · exact none

/-- The digits before a text without fraction and exponent are grouped badly in one of two ways. -/
theorem isBadlyGrouped_whole {whole : List Char} :
    isBadlyGrouped (whole ++ fractionText none ++ exponentText none) = true ↔
      ¬ (¬ ['_', '_'] <:+: whole ∧ whole.getLast? ≠ some '_') := by
  have clean : '_' ∉ ([] : List Char) := List.not_mem_nil
  rw [fractionText, exponentText, List.append_nil, isBadlyGrouped_append whole clean]
  simp [or_iff_not_imp_left]

/-- A decimal number cannot be read where its exponent begins with a foreign digit, and where it is an
integer that is too long; its underscores are in order there. -/
theorem decimalNumber_error_iff {whole cs : List Char} {f : Fault} (run : IsRun whole) :
    decimalNumber whole cs = .error f ↔ f = .unreadableDigits ∧
      (¬ ['_', '_'] <:+: whole ++ fractionText (fraction cs).1 ∧ ForeignExponent (fraction cs).2 ∨
        (¬ ['_', '_'] <:+: whole ∧ whole.getLast? ≠ some '_') ∧ IsLong whole ∧
          fraction cs = (none, cs) ∧ exponent cs = (none, cs)) := by
  by_cases foreign : ForeignExponent (fraction cs).2
  · have integer : ¬ (fraction cs = (none, cs) ∧ exponent cs = (none, cs)) := by
      rintro ⟨frac, exp⟩
      rw [frac] at foreign
      obtain ⟨x, found, -⟩ := foreignExponent_iff.1 foreign
      rw [exp] at found
      cases found
    simp only [foreign, integer, and_true, and_false, or_false]
    unfold decimalNumber
    generalize fraction cs = parts at foreign
    obtain ⟨frac, tail⟩ := parts
    dsimp only at foreign ⊢
    obtain ⟨mark, digit⟩ := foreign
    obtain ⟨m, sign, rfl, found⟩ := exponent_foreign mark digit
    -- the text ends with the mark or the sign, so only underscores in a row are in the way
    have clean : '_' ∉ exponentText (some ⟨m, sign, []⟩) := by
      rw [exponentText, List.append_nil]
      exact not_mem_exponentMark mark
    have grouped := isBadlyGrouped_append (whole ++ fractionText frac) clean
    rw [or_iff_left (by rintro ⟨⟨⟩, -⟩)] at grouped
    rw [found]
    split
    · next bad => exact iff_of_false (by rintro ⟨⟩) fun h => h.2 (grouped.1 bad)
    · next good =>
      have fault : (.error .unreadableDigits : Except Fault Lexed) = .error f ↔
          f = .unreadableDigits ∧ ¬ ['_', '_'] <:+: whole ++ fractionText frac := by
        rw [Except.error.injEq, eq_comm]
        exact (and_iff_left fun bad => good (grouped.2 bad)).symm
      cases frac with
      | none | some _ => exact fault
  · simp only [foreign, and_false, false_or]
    constructor
    · intro h
      unfold decimalNumber at h
      dsimp only at h
      split at h
      · cases h
      · next good =>
        split at h
        · next hf he =>
          have frac := fraction_none hf
          rw [frac] at he good
          have exp := exponent_none he
          rw [exp, isBadlyGrouped_whole, not_not] at good
          obtain ⟨rfl, none⟩ := decimal_error_iff.1 (bind_pure_eq_error.1 h)
          exact ⟨rfl, good, run.decimal?_eq_none.1 none, frac, exp⟩
        · next x he =>
          split at h
          · next none => exact absurd (foreignExponent_iff.2 ⟨x, he, List.isEmpty_iff.1 none⟩) foreign
          · cases h
        · cases h
    · rintro ⟨rfl, good, long, frac, exp⟩
      unfold decimalNumber
      rw [frac]
      dsimp only
      rw [exp]
      dsimp only
      rw [if_neg fun bad => isBadlyGrouped_whole.1 bad good,
        decimal_error_iff.2 ⟨rfl, run.decimal?_eq_none.2 long⟩]
      rfl

/-! ### Numbers in a base -/

/-- Digits in a base cannot be read where the base is ten and they are too many. -/
theorem basedLexeme_error_iff (radix : Nat) {digits : List Char} {f : Fault}
    (clean : '_' ∉ digits) : basedLexeme radix digits = .error f ↔
      f = .unreadableDigits ∧ radix = 10 ∧ (∀ c ∈ digits, isAsciiDigit c = true) ∧ IsLong digits := by
  -- The digits are converted only if all of them are digits of the base, which an underscore is
  -- not.
  have long (some_digit : digits ≠ []) : decimal? digits = none ↔ IsLong digits := by
    rw [decimal?_eq_none, or_iff_right]
    intro underscores
    obtain ⟨c, cs, rfl⟩ := List.exists_cons_of_ne_nil some_digit
    exact clean (underscores c List.mem_cons_self ▸ List.mem_cons_self)
  unfold basedLexeme
  constructor
  · intro h
    split at h
    · next allowed known =>
      split at h
      · next all =>
        rw [Bool.and_eq_true, Bool.not_eq_true', List.isEmpty_eq_false_iff, List.all_eq_true] at all
        have read := bind_pure_eq_error.1 h
        unfold inBase at read
        split at read
        · next ten =>
          subst ten
          cases known
          obtain ⟨rfl, none⟩ := decimal_error_iff.1 read
          exact ⟨rfl, rfl, all.2, (long all.1).1 none⟩
        · cases read
      · cases h
    · cases h
  · rintro ⟨rfl, rfl, ascii, many⟩
    have all : (!digits.isEmpty && digits.all isAsciiDigit) = true := by
      rw [Bool.and_eq_true, Bool.not_eq_true', List.isEmpty_eq_false_iff, List.all_eq_true]
      exact ⟨many.ne_nil, ascii⟩
    show (if (!digits.isEmpty && digits.all isAsciiDigit) = true then _ else _) = _
    rw [if_pos all, inBase, if_pos rfl, decimal_error_iff.2 ⟨rfl, (long many.ne_nil).2 many⟩]
    rfl

/-- A number in a base cannot be read where the base is too long, and where it is ten and the digits
after it are. -/
theorem basedNumber_error_iff {base cs : List Char} {f : Fault} (run : IsRun base) :
    basedNumber base cs = .error f ↔ f = .unreadableDigits ∧
      (IsLong base ∨ natOfDigits base = 10 ∧
        (∀ c ∈ cs.takeWhile (isGrouped isHexDigit), isGrouped isAsciiDigit c = true) ∧
        IsLong (cs.takeWhile (isGrouped isHexDigit))) := by
  generalize body : cs.takeWhile (isGrouped isHexDigit) = digits
  -- What is converted are the digits without their underscores, so conditions on these are brought
  -- back to the characters that stand there.
  have clean : '_' ∉ digits.filter (· != '_') := by simp
  have ascii : (∀ c ∈ digits.filter (· != '_'), isAsciiDigit c = true) ↔
      ∀ c ∈ digits, isGrouped isAsciiDigit c = true := by
    simp only [List.mem_filter, isGrouped, Bool.or_eq_true, beq_iff_eq, bne_iff_ne, and_imp,
      or_iff_not_imp_right]
  have long : IsLong (digits.filter (· != '_')) ↔ IsLong digits := by
    simp [IsLong, List.countP_filter]
  have digits_error := basedLexeme_error_iff (natOfDigits base) (f := f) clean
  rw [ascii, long] at digits_error
  unfold basedNumber
  rw [body]
  cases read : decimal base with
  -- the base itself is too long
  | error e =>
    obtain ⟨rfl, none⟩ := decimal_error_iff.1 read
    have many := run.decimal?_eq_none.1 none
    simp only [many, true_or, and_true]
    show (Except.error .unreadableDigits : Except Fault Lexed) = .error f ↔ _
    rw [Except.error.injEq, eq_comm]
  -- the base is known, so the digits decide
  | ok radix =>
    have short : ¬ IsLong base := fun many => by
      rw [decimal_error_iff.2 ⟨rfl, run.decimal?_eq_none.2 many⟩] at read
      cases read
    obtain rfl : radix = natOfDigits base := by
      unfold decimal decimal? at read
      dsimp only at read
      split at read
      · next found =>
        split at found
        · cases found
        · cases found
          exact (Except.ok.inj read).symm
      · cases read
    simp only [short, false_or]
    rw [← digits_error]
    exact bind_pure_eq_error

/-! ### Numbers of both kinds -/

/-- A decimal digit is a hexadecimal one. -/
theorem isGrouped_hex {c : Char} (h : isGrouped isAsciiDigit c = true) : isGrouped isHexDigit c = true := by
  unfold isGrouped at h ⊢
  rw [Bool.or_eq_true] at h ⊢
  refine h.imp_left fun digit => ?_
  simp [isHexDigit, hexValue?, digit]

/-- A `#` is no digit. -/
theorem not_grouped_hash (rest : List Char) :
    ∀ x ∈ ('#' :: rest).head?, isGrouped isAsciiDigit x = false := by
  rintro x ⟨⟩
  rfl

theorem number_run {run rest : List Char} (h : IsRun run)
    (head : ∀ c ∈ rest.head?, isGrouped isAsciiDigit c = false ∧ c ≠ '#') :
    number (run ++ rest) = decimalNumber run rest := by
  have ends : ∀ c ∈ rest.head?, isGrouped isAsciiDigit c = false := fun c hc => (head c hc).1
  unfold number
  rw [takeWhile_run h.grouped ends, dropWhile_run h.grouped ends]
  dsimp only
  split
  · exact absurd rfl (head '#' rfl).2
  · rfl

theorem number_hash {base : List Char} (h : IsRun base) (rest : List Char) :
    number (base ++ '#' :: rest) = basedNumber base rest := by
  unfold number
  rw [takeWhile_run h.grouped (not_grouped_hash rest), dropWhile_run h.grouped (not_grouped_hash rest)]
  rfl

theorem number_error_iff {c : Char} {cs : List Char} {f : Fault} (digit : isAsciiDigit c = true) :
    number (c :: cs) = .error f ↔ f = .unreadableDigits ∧ Unreadable (c :: cs) := by
  have first : isGrouped isAsciiDigit c = true := by simp [isGrouped, digit]
  constructor
  · intro h
    have parts := List.takeWhile_append_dropWhile (p := isGrouped isAsciiDigit) (l := c :: cs)
    have run : IsRun ((c :: cs).takeWhile (isGrouped isAsciiDigit)) := by
      refine ⟨?_, List.all_eq_true.1 List.all_takeWhile⟩
      rw [List.takeWhile_cons_of_pos first]
      exact ⟨c, rfl, digit⟩
    have stop := head_dropWhile (isGrouped isAsciiDigit) (c :: cs)
    -- The digits in front are a run; what comes behind it says which of the four ways it is.
    unfold number at h
    dsimp only at h
    split at h
    · next rest hash =>
      obtain ⟨rfl, long | ⟨ten, grouped, long⟩⟩ := (basedNumber_error_iff run).1 h
      · refine ⟨rfl, ?_⟩
        rw [← parts, hash]
        exact .base run long
      · refine ⟨rfl, ?_⟩
        rw [← parts, hash, ← List.takeWhile_append_dropWhile (p := isGrouped isHexDigit) (l := rest)]
        exact .based run ten grouped long (head_dropWhile _ rest)
    · next plain =>
      obtain ⟨rfl, ⟨grouped, foreign⟩ | ⟨grouped, long, frac, exp⟩⟩ := (decimalNumber_error_iff run).1 h
      · refine ⟨rfl, ?_⟩
        rw [← parts, ← fraction_append ((c :: cs).dropWhile (isGrouped isAsciiDigit))]
        exact .exponent run (fraction_run foreign) grouped foreign
      · have head : ∀ x ∈ ((c :: cs).dropWhile (isGrouped isAsciiDigit)).head?,
            isGrouped isAsciiDigit x = false ∧ x ≠ '#' := by
          refine fun x hx => ⟨stop x hx, ?_⟩
          rintro rfl
          obtain ⟨more, same⟩ := List.head?_eq_some_iff.1 hx
          exact plain more same
        refine ⟨rfl, ?_⟩
        rw [← parts]
        exact .integer run grouped.1 grouped.2 long ((endsWhole_iff head).2 ⟨frac, exp⟩)
  · rintro ⟨rfl, h⟩
    -- Each of the four shapes is brought to a run and a rest, and read again.
    generalize same : c :: cs = text at h
    cases h with
    | @exponent whole frac tail run fraction grouped foreign =>
      obtain ⟨shown, left⟩ := fraction_foreign fraction foreign
      -- a point or the mark of the exponent ends the digits, and neither is a `#`
      have head : ∀ x ∈ (frac ++ tail).head?, isGrouped isAsciiDigit x = false ∧ x ≠ '#' := by
        rintro x hx
        rcases fraction with rfl | ⟨digits, rfl, -⟩
        · obtain ⟨⟨rfl | rfl, -⟩, -⟩ := foreign
          · cases hx
            exact ⟨rfl, by decide⟩
          · cases hx
            exact ⟨rfl, by decide⟩
        · cases hx
          exact ⟨rfl, by decide⟩
      rw [number_run run head, decimalNumber_error_iff run, shown, left]
      exact ⟨rfl, .inl ⟨grouped, foreign⟩⟩
    | integer run grouped closed long ends =>
      rw [number_run run ends.head, decimalNumber_error_iff run]
      exact ⟨rfl, .inr ⟨⟨grouped, closed⟩, long, (endsWhole_iff ends.head).1 ends⟩⟩
    | base run long =>
      rw [number_hash run, basedNumber_error_iff run]
      exact ⟨rfl, .inl long⟩
    | based run ten grouped long ends =>
      have hex : ∀ x ∈ _, isGrouped isHexDigit x = true := fun x hx => isGrouped_hex (grouped x hx)
      rw [number_hash run, basedNumber_error_iff run, takeWhile_run hex ends]
      exact ⟨rfl, .inr ⟨ten, grouped, long⟩⟩
    | address =>
      cases same
      exact absurd digit (by decide)

/-! ### Addresses -/

theorem mapM_decimal_error_iff {bits : Option (List Char)} {f : Fault} :
    bits.mapM decimal = .error f ↔
      f = .unreadableDigits ∧ ∃ digits, bits = some digits ∧ decimal? digits = none := by
  cases bits with
  | none => exact iff_of_false (by rintro ⟨⟩) (by rintro ⟨-, -, ⟨⟩, -⟩)
  | some digits =>
    have same : (some digits).mapM decimal = (decimal digits).map some := rfl
    rw [same]
    constructor
    · intro h
      obtain ⟨rfl, none⟩ := decimal_error_iff.1 (map_eq_error h)
      exact ⟨rfl, digits, rfl, none⟩
    · rintro ⟨rfl, _, ⟨⟩, none⟩
      rw [decimal_error_iff.2 ⟨rfl, none⟩]
      rfl

/-- An address cannot be read where its bit or its offset cannot. -/
theorem addressTail_run {lead digits rest : List Char} {area : Address.Area} {size : Address.Size}
    {f : Fault} (some_digit : digits ≠ []) (ascii : ∀ x ∈ digits, isAsciiDigit x = true)
    (ends : ∀ x ∈ rest.head?, isAsciiDigit x = false) :
    addressTail lead area size (digits ++ rest) = .error f ↔ f = .unreadableDigits ∧
      ((∃ bits, (afterPoint isAsciiDigit rest).1 = some bits ∧ decimal? bits = none) ∨
        IsLong digits) := by
  have run : IsRun digits := by
    obtain ⟨c, cs, rfl⟩ := List.exists_cons_of_ne_nil some_digit
    exact ⟨⟨c, rfl, ascii c List.mem_cons_self⟩, fun x hx => by simp [isGrouped, ascii x hx]⟩
  unfold addressTail
  rw [takeWhile_run ascii ends, dropWhile_run ascii ends]
  dsimp only
  rw [if_neg (by rwa [List.isEmpty_iff])]
  -- The bit is converted before the offset, so it is the first to fail.
  cases bits : (afterPoint isAsciiDigit rest).1.mapM decimal with
  | error e =>
    obtain ⟨rfl, unread⟩ := mapM_decimal_error_iff.1 bits
    simp only [unread, true_or, and_true]
    show (Except.error .unreadableDigits : Except Fault Lexed) = .error f ↔ _
    rw [Except.error.injEq, eq_comm]
  | ok bit =>
    have read : ¬ ∃ bits, (afterPoint isAsciiDigit rest).1 = some bits ∧ decimal? bits = none := by
      intro unread
      rw [mapM_decimal_error_iff.2 ⟨rfl, unread⟩] at bits
      cases bits
    simp only [read, false_or]
    rw [← run.decimal?_eq_none, ← decimal_error_iff]
    exact bind_pure_eq_error

theorem addressTail_error_iff {lead cs : List Char} {area : Address.Area} {size : Address.Size}
    {f : Fault} :
    addressTail lead area size cs = .error f ↔ f = .unreadableDigits ∧ UnreadableOffset cs := by
  -- An address has no underscores, and so its digits are bad by their number, or there are none.
  have no_underscore {bits : List Char} (ascii : ∀ x ∈ bits, isAsciiDigit x = true) :
      decimal? bits = none ↔ bits = [] ∨ IsLong bits := by
    rw [decimal?_eq_none]
    refine or_congr_left ⟨fun all => ?_, by rintro rfl; simp⟩
    refine List.eq_nil_iff_forall_not_mem.2 fun x hx => ?_
    have digit := ascii x hx
    rw [all x hx] at digit
    cases digit
  constructor
  · intro h
    -- Without an offset the sign and its letters are taken as they stand.
    by_cases some_digit : cs.takeWhile isAsciiDigit = []
    · unfold addressTail at h
      dsimp only at h
      rw [if_pos (by rwa [List.isEmpty_iff])] at h
      cases h
    have ascii : ∀ x ∈ cs.takeWhile isAsciiDigit, isAsciiDigit x = true :=
      List.all_eq_true.1 List.all_takeWhile
    have ends := head_dropWhile isAsciiDigit cs
    rw [← List.takeWhile_append_dropWhile (p := isAsciiDigit) (l := cs)] at h ⊢
    obtain ⟨rfl, ⟨bits, found, unread⟩ | long⟩ := (addressTail_run some_digit ascii ends).1 h
    · refine ⟨rfl, ?_⟩
      -- A digit after the point is looked for among those of Unicode, and so none may be taken.
      obtain ⟨d, tail, rest, digit, same⟩ | none :=
        afterPoint_eq isAsciiDigit (cs.dropWhile isAsciiDigit)
      · rw [same] at found
        obtain rfl := Option.some.inj found
        have bits_ascii : ∀ x ∈ (d :: tail).takeWhile isAsciiDigit, isAsciiDigit x = true :=
          List.all_eq_true.1 List.all_takeWhile
        rw [rest]
        obtain none | long := (no_underscore bits_ascii).1 unread
        · refine .foreign some_digit ascii ⟨digit, ?_⟩
          by_contra taken
          rw [Bool.not_eq_false] at taken
          rw [List.takeWhile_cons_of_pos taken] at none
          cases none
        · rw [← List.takeWhile_append_dropWhile (p := isAsciiDigit) (l := d :: tail)]
          exact .longBit some_digit ascii bits_ascii long (head_dropWhile _ _)
      · rw [none] at found
        cases found
    · exact ⟨rfl, .long ascii long ends⟩
  · have point (tail : List Char) : ∀ x ∈ ('.' :: tail).head?, isAsciiDigit x = false := by
      rintro x ⟨⟩
      rfl
    rintro ⟨rfl, offset⟩
    -- Each shape gives the digits and the rest that the offset is read from.
    cases offset with
    | foreign some_digit ascii foreign =>
      refine (addressTail_run some_digit ascii (point _)).2 ⟨rfl, .inl ⟨[], ?_, rfl⟩⟩
      rw [afterPoint, if_pos foreign.1, List.takeWhile_cons_of_neg (by simp [foreign.2])]
    | long ascii long ends => exact (addressTail_run long.ne_nil ascii ends).2 ⟨rfl, .inr long⟩
    | @longBit digits bits rest some_digit ascii bits_ascii long ends =>
      obtain ⟨d, more, rfl⟩ := List.exists_cons_of_ne_nil long.ne_nil
      have digit := isDigit_of_isAsciiDigit (bits_ascii d List.mem_cons_self)
      refine (addressTail_run some_digit ascii (point _)).2
        ⟨rfl, .inl ⟨d :: more, ?_, (no_underscore bits_ascii).2 (.inr long)⟩⟩
      rw [List.cons_append, afterPoint, if_pos digit, ← List.cons_append, takeWhile_run bits_ascii ends]

/-- A digit is no width. -/
theorem size?_digit {c : Char} (digit : isAsciiDigit c = true) : size? c = none := by
  unfold size?
  split
  all_goals first | rfl | exact absurd digit (by decide)

theorem address_error_iff {cs : List Char} {f : Fault} :
    address cs = .error f ↔ f = .unreadableDigits ∧ Unreadable ('%' :: cs) := by
  constructor
  · intro h
    unfold address at h
    split at h
    · next a cs' =>
      split at h
      · next known =>
        have area : (area? a).isSome = true := by rw [known]; rfl
        split at h
        · next s cs'' =>
          split at h
          · next width =>
            obtain ⟨rfl, offset⟩ := addressTail_error_iff.1 h
            exact ⟨rfl, .address area (.inr ⟨s, rfl, by rw [width]; rfl⟩) offset⟩
          · obtain ⟨rfl, offset⟩ := addressTail_error_iff.1 h
            exact ⟨rfl, .address area (.inl rfl) offset⟩
        · obtain ⟨rfl, offset⟩ := addressTail_error_iff.1 h
          exact ⟨rfl, .address area (.inl rfl) offset⟩
      · cases h
    · cases h
  · rintro ⟨rfl, h⟩
    generalize same : '%' :: cs = text at h
    cases h with
    | exponent run | integer run | base run | based run =>
      obtain ⟨d, more, begins, digit⟩ := run.begins _
      cases same.trans begins
      exact absurd digit (by decide)
    | @address a size tail known sized offset =>
      cases same
      obtain ⟨area, known⟩ := Option.isSome_iff_exists.1 known
      have unread (lead : List Char) (width : Address.Size) :
          addressTail lead area width tail = .error .unreadableDigits :=
        addressTail_error_iff.2 ⟨rfl, offset⟩
      rcases sized with rfl | ⟨s, rfl, width⟩
      · -- the offset comes at once, and its first digit is no width
        obtain ⟨d, more, rfl, digit⟩ := offset.begins
        have none := size?_digit digit
        rw [List.nil_append, address]
        simp only [known, none]
        exact unread _ _
      · obtain ⟨size, width⟩ := Option.isSome_iff_exists.1 width
        rw [List.singleton_append, address]
        simp only [known, width]
        exact unread _ _

/-! ### Any token -/

/-- No token can be taken off the front of a text just where it begins with such a number or such an
address. -/
theorem read_error_iff {d : Dialect} {c : Char} {cs : List Char} {f : Fault} :
    read d c cs = .error f ↔ f = .unreadableDigits ∧ Unreadable (c :: cs) := by
  unfold read
  by_cases digit : isAsciiDigit c = true
  · have name : ¬ isNameStart c = true := by
      intro name
      have other := isDigit_of_isAsciiDigit digit
      rw [not_isDigit_of_isNameStart name] at other
      cases other
    rw [if_neg name, if_pos digit]
    exact number_error_iff digit
  by_cases percent : c = '%'
  · subst percent
    exact address_error_iff
  -- everything else is a token, if only an unknown one
  constructor
  · intro h
    rw [if_neg digit, if_neg percent] at h
    repeat' split at h
    all_goals cases h
  · rintro ⟨-, unreadable⟩
    obtain ⟨_, _, ⟨⟩, first⟩ := unreadable.begins
    exact absurd first (not_or.2 ⟨digit, percent⟩)

end Lexed

/-! ### After blanks and comments -/

/-- Blanks and comments, and then a text that cannot be read. -/
def Blocked (text : List Char) : Prop :=
  ∃ gap rest, text = gap ++ rest ∧ Gap.Fills rest gap ∧ Unreadable rest

theorem Unreadable.clear {rest : List Char} (h : Unreadable rest) (q : Nat) :
    Gap.skip .blank q rest = .clear q rest := by
  obtain ⟨c, cs, rfl, first⟩ := h.begins
  have other (e : Char) (digit : isAsciiDigit e = false) (percent : e ≠ '%') : c ≠ e := by
    rintro rfl
    rw [digit] at first
    exact first.elim Bool.false_ne_true percent
  have blank : isBlank c = false := by
    by_contra blank
    rw [Bool.not_eq_false] at blank
    rcases first with ascii | rfl
    · have digit := isDigit_of_isAsciiDigit ascii
      rw [not_isDigit_of_isBlank blank] at digit
      cases digit
    · exact absurd blank (by decide)
  exact Gap.skip_clear blank (fun slash => absurd slash (other '/' rfl (by decide)))
    (fun paren => absurd paren (other '(' rfl (by decide))) q

namespace Scanner

/-- What ends the scan is such a text after blanks and comments, and nothing else. -/
theorem next_error_iff {d : Dialect} {s : Scanner} {f : Fault} :
    s.next d = .error f ↔ f = .unreadableDigits ∧ Blocked s.rest := by
  constructor
  · intro h
    have told := Gap.tells_skip .blank s.pos s.rest
    obtain ⟨pos, c, cs, skipped, read⟩ := next_eq_error_iff.1 h
    rw [skipped] at told
    obtain ⟨n, -, gap, parts, -, fills⟩ := told
    obtain ⟨rfl, unreadable⟩ := Lexed.read_error_iff.1 read
    exact ⟨rfl, gap, _, parts, fills, unreadable⟩
  · rintro ⟨rfl, gap, rest, parts, fills, unreadable⟩
    have passed := fills.skip unreadable.clear s.pos
    obtain ⟨c, cs, rfl, -⟩ := unreadable.begins
    exact next_eq_error_iff.2 ⟨_, c, cs, (congrArg _ parts).trans passed,
      Lexed.read_error_iff.2 ⟨rfl, unreadable⟩⟩

theorem next_ok_iff {d : Dialect} {s : Scanner} :
    (∃ t s', s.next d = .ok (t, s')) ↔ ¬ Blocked s.rest := by
  constructor
  · rintro ⟨t, s', ok⟩ blocked
    rw [next_error_iff.2 ⟨rfl, blocked⟩] at ok
    cases ok
  · intro free
    cases h : s.next d with
    | ok found => exact ⟨found.1, found.2, rfl⟩
    | error f => exact absurd (next_error_iff.1 h).2 free

end Scanner

/-! ### The whole text -/

namespace Scans

variable {d : Dialect} {s s' : Scanner} {ts : List Token}

theorem length_add_le (h : Scans d s ts s') : ts.length + s'.rest.length ≤ s.rest.length := by
  induction h with
  | nil => simp
  | cons first goes _ ih =>
    have less := Scanner.next_shorter first goes
    rw [List.length_cons]
    omega

/-- A scanner that comes to a fault after these tokens gives them and the fault. -/
theorem run_fault (h : Scans d s ts s') {f : Fault} (fault : s'.next d = .error f) :
    ∀ n, ts.length < n → s.run d n = (ts, some f) := by
  induction h with
  | nil s =>
    intro n hn
    cases n with
    | zero => cases hn
    | succ n => rw [Scanner.run, fault]
  | cons first goes _ ih =>
    intro n hn
    cases n with
    | zero => cases hn
    | succ n =>
      rw [Scanner.run, first]
      dsimp only
      rw [goes, ih fault n (Nat.lt_of_succ_lt_succ hn)]
      rfl

/-- The tokens of a run that is cut short. -/
theorem of_run_fault {n : Nat} {f : Fault} (h : s.run d n = (ts, some f)) :
    ∃ m, Scans d s ts m ∧ m.next d = .error f := by
  induction n generalizing s ts with
  | zero => cases h
  | succ n ih =>
    rw [Scanner.run] at h
    split at h
    · next fault =>
      cases h
      exact ⟨s, .nil s, fault⟩
    · next t m next =>
      split at h
      · cases h
      · next goes =>
        cases hrun : m.run d n with
        | mk more fault =>
          rw [hrun] at h
          cases h
          obtain ⟨m', scans, fault⟩ := ih hrun
          exact ⟨m', .cons next (Bool.eq_false_iff.2 goes) scans, fault⟩

end Scans

/-- A text whose scan comes to a fault is not cut into tokens. -/
theorem tokens_fault {d : Dialect} {source : List Char} {ts : List Token} {s : Scanner} {f : Fault}
    (scans : Scans d (Scanner.start source) ts s) (fault : s.next d = .error f) :
    tokens d source = .error f := by
  have short := scans.length_add_le
  have start := (Scanner.start_suffix source).length_le
  unfold tokens scan
  rw [scans.run_fault fault (source.length + 1) (by omega)]

/-- An integer of ones that is too long. -/
theorem tokens_replicate (d : Dialect) :
    tokens d (List.replicate (maxDigits + 1) '1') = .error .unreadableDigits := by
  have run : IsRun (List.replicate (maxDigits + 1) '1') := by
    refine ⟨⟨'1', rfl, rfl⟩, fun c hc => ?_⟩
    rw [List.eq_of_mem_replicate hc]
    rfl
  have underscore : '_' ∉ List.replicate (maxDigits + 1) '1' := fun h => by
    cases List.eq_of_mem_replicate h
  have unreadable : Unreadable (List.replicate (maxDigits + 1) '1' ++ []) := by
    refine .integer run (fun h => underscore (h.subset List.mem_cons_self))
      (fun h => underscore (List.mem_of_getLast? h)) ?_ ?_
    · rw [IsLong, List.countP_replicate]
      exact Nat.lt_succ_self maxDigits
    · refine ⟨by rintro c ⟨⟩, by rintro c more ⟨⟩, fun lead c more mark same => ?_⟩
      simp at same
  rw [List.append_nil] at unreadable
  have start : (Scanner.start (List.replicate (maxDigits + 1) '1')).rest =
      List.replicate (maxDigits + 1) '1' := rfl
  refine tokens_fault (.nil _) (Scanner.next_error_iff.2 ⟨rfl, [], _, start, .nil, unreadable⟩)

theorem UnreadableOffset.causes {text : List Char} (h : UnreadableOffset text) :
    (∃ c ∈ text, ForeignDigit c) ∨
      ∃ run, run <:+: text ∧ (∀ c ∈ run, Lexed.isGrouped isAsciiDigit c = true) ∧ IsLong run := by
  have grouped {digits : List Char} (ascii : ∀ x ∈ digits, isAsciiDigit x = true) :
      ∀ x ∈ digits, Lexed.isGrouped isAsciiDigit x = true :=
    fun x hx => by simp [Lexed.isGrouped, ascii x hx]
  cases h with
  | foreign _ _ foreign => exact .inl ⟨_, by simp, foreign⟩
  | @long digits rest ascii long => exact .inr ⟨digits, ⟨[], rest, rfl⟩, grouped ascii, long⟩
  | @longBit digits bits rest _ _ bits_ascii long =>
    exact .inr ⟨bits, ⟨digits ++ ['.'], rest, by simp⟩, grouped bits_ascii, long⟩

/-- In every text that cannot be read there is a digit that is looked for and not read, or a stretch
of digits that is too long. -/
theorem Unreadable.causes {text : List Char} (h : Unreadable text) :
    (∃ c ∈ text, ForeignDigit c) ∨
      ∃ run, run <:+: text ∧ (∀ c ∈ run, Lexed.isGrouped isAsciiDigit c = true) ∧ IsLong run := by
  cases h with
  | exponent _ _ _ exponent =>
    obtain ⟨-, foreign⟩ := exponent
    exact .inl ⟨_, by simp, foreign⟩
  | @integer whole rest run _ _ long => exact .inr ⟨whole, ⟨[], rest, rfl⟩, run.grouped, long⟩
  | @base base rest run long => exact .inr ⟨base, ⟨[], '#' :: rest, rfl⟩, run.grouped, long⟩
  | @based base digits rest _ _ grouped long =>
    exact .inr ⟨digits, ⟨base ++ ['#'], rest, by simp⟩, grouped, long⟩
  | @address area size tail _ _ offset =>
    obtain ⟨c, hc, foreign⟩ | ⟨run, ⟨before, after, rfl⟩, grouped, long⟩ := offset.causes
    · exact .inl ⟨c, by simp [hc], foreign⟩
    · exact .inr ⟨run, ⟨'%' :: area :: (size ++ before), after, by simp⟩, grouped, long⟩

/-- The scan gives a token from every place where no unreadable number comes next, and only from
these.  So a text is cut into tokens, the end of the text last, just when no such number is come to; and
every text is that has no foreign digits and no stretch of digits that is too long. -/
theorem tokens_cut_iff (d : Dialect) (source : List Char) :
    (∀ s : Scanner, (∃ t s', s.next d = .ok (t, s')) ↔ ¬ Blocked s.rest) ∧
    ((∃ ts, tokens d source = .ok (ts ++ [Scanner.finish source.length]) ∧
        ∀ t ∈ ts, t.lexeme.isFinish = false) ↔
      ∀ ts s, Scans d (Scanner.start source) ts s → ¬ Blocked s.rest) ∧
    ((∀ c ∈ source, ¬ ForeignDigit c) →
      (∀ run, run <:+: source → (∀ c ∈ run, Lexed.isGrouped isAsciiDigit c = true) → ¬ IsLong run) →
      ∃ ts, tokens d source = .ok (ts ++ [Scanner.finish source.length]) ∧
        ∀ t ∈ ts, t.lexeme.isFinish = false) := by
  have cut : (∃ ts, tokens d source = .ok (ts ++ [Scanner.finish source.length]) ∧
        ∀ t ∈ ts, t.lexeme.isFinish = false) ↔
      ∀ ts s, Scans d (Scanner.start source) ts s → ¬ Blocked s.rest := by
    constructor
    · rintro ⟨all, cut, -⟩ ts s scans blocked
      -- the run would come to the fault
      have fault := tokens_fault scans (Scanner.next_error_iff.2 ⟨rfl, blocked⟩)
      rw [fault] at cut
      cases cut
    · intro free
      cases h : scan d source with
      | mk all fault =>
        cases fault with
        | some f =>
          obtain ⟨m, scans, fault⟩ := Scans.of_run_fault h
          exact absurd (Scanner.next_error_iff.1 fault).2 (free _ _ scans)
        | none =>
          have ok : tokens d source = .ok all := by
            unfold tokens
            rw [h]
          obtain ⟨ts, fin, m, m', parts, scans, -⟩ := scans_of_tokens' ok
          obtain ⟨ts', same, -⟩ := tokens_row ok
          obtain ⟨rfl, last⟩ := List.append_inj' (parts.symm.trans same) rfl
          rw [same] at ok
          exact ⟨_, ok, scans.goes⟩
  refine ⟨fun s => Scanner.next_ok_iff, cut, fun plain short => cut.2 fun ts s scans blocked => ?_⟩
  obtain ⟨gap, rest, parts, -, unreadable⟩ := blocked
  obtain ⟨⟨-, left⟩, -⟩ := scans.tile (Scanner.start_in source)
  have within : rest <:+: source := by
    refine List.IsInfix.trans ⟨gap, [], ?_⟩ (List.drop_suffix s.pos source).isInfix
    rw [List.append_nil, ← left, parts]
  obtain ⟨c, hc, foreign⟩ | ⟨run, inside, grouped, long⟩ := unreadable.causes
  · exact plain c (within.subset hc) foreign
  · exact short run (inside.trans within) grouped long

/-- Not every text is cut into tokens: `1e²` is not, neither is `%IX0.²`, and neither is a row of more
than `maxDigits` digits. -/
theorem tokens_superscript :
    (¬ ∀ (d : Dialect) (s : Scanner), ∃ t s', s.next d = .ok (t, s')) ∧
    (¬ ∀ (d : Dialect) (source : List Char), ∃ ts, tokens d source = .ok ts) ∧
    tokens .generic "1e²".toList = .error .unreadableDigits ∧
    tokens .generic "%IX0.²".toList = .error .unreadableDigits ∧
    tokens .generic (List.replicate (maxDigits + 1) '1') = .error .unreadableDigits := by
  have stuck : (Scanner.start "1e²".toList).next .generic = .error .unreadableDigits := rfl
  have whole : tokens .generic "1e²".toList = .error .unreadableDigits := rfl
  refine ⟨fun all => ?_, fun all => ?_, whole, rfl, tokens_replicate .generic⟩
  · obtain ⟨t, s', ok⟩ := all .generic (Scanner.start "1e²".toList)
    cases stuck.symm.trans ok
  · obtain ⟨ts, ok⟩ := all .generic "1e²".toList
    cases whole.symm.trans ok

end Plc
