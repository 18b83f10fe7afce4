/-
The grammar of durations.

A duration is a sign, if one comes, and a row of measures: numbers, each with the letters of a
unit, the units from large to small.  Underscores may stand anywhere and say nothing.

* `part?_eq_some_iff` — one part is a number and all the letters behind it;
* `sum_measures` — a row of measures is added up, whatever comes after it;
* `tells_sum` — what is added up is a row of measures, and where the sum ends early;
* `nanoseconds_grammar` — which texts are durations, and why the others are none.
-/
import Plc.Literal
import Plc.Proofs.Token.Follow

namespace Plc.Literal

open Text

/-! ### Units -/

namespace TimeUnit

/-- The name of the unit in small letters. -/
def name : TimeUnit → List Char
  | .day => ['d']
  | .hour => ['h']
  | .minute => ['m']
  | .second => ['s']
  | .millisecond => ['m', 's']
  | .microsecond => ['u', 's']
  | .nanosecond => ['n', 's']

theorem ofName?_name (u : TimeUnit) : ofName? u.name = some u := by
  cases u <;> rfl

theorem ofName?_eq_some_iff {letters : List Char} {u : TimeUnit} :
    ofName? letters = some u ↔ letters = u.name := by
  constructor
  · intro h
    unfold ofName? at h
    split at h <;> cases h <;> rfl
  · rintro rfl
    exact u.ofName?_name

/-- A unit comes after the larger ones. -/
theorem rank_lt_iff {u v : TimeUnit} : u.rank < v.rank ↔ v.nanoseconds < u.nanoseconds := by
  cases u <;> cases v <;> decide

end TimeUnit

namespace Duration

/-! ### Parts -/

/-- A point and a fraction, when there is one. -/
def fractionText (fraction : List Char) : List Char :=
  if fraction = [] then [] else '.' :: fraction

/-- The number of the part as it is written. -/
def Part.number (p : Part) : List Char :=
  p.whole ++ fractionText p.fraction

/-- The part as it is written. -/
def Part.text (p : Part) : List Char :=
  p.number ++ p.letters

/-- The part is a number, in digits of any script, and some letters. -/
structure Part.IsShaped (p : Part) : Prop where
  some_digit : p.whole ≠ []
  whole : ∀ c ∈ p.whole, isDecimal c = true
  fraction : ∀ c ∈ p.fraction, isDecimal c = true
  some_letter : p.letters ≠ []
  letters : ∀ c ∈ p.letters, isAsciiLetter c = true

/-- No letter comes next. -/
def EndsLetters (rest : List Char) : Prop :=
  ∀ c ∈ rest.head?, isAsciiLetter c = false

/-- Letters are neither digits nor points. -/
theorem not_isDecimal_of_isAsciiLetter {c : Char} (letter : isAsciiLetter c = true) :
    isDecimal c = false ∧ c ≠ '.' := by
  have range : 65 ≤ c.toNat ∧ c.toNat ≤ 122 := by
    simp only [isAsciiLetter, Bool.or_eq_true, Bool.and_eq_true, decide_eq_true_eq] at letter
    rcases letter with ⟨low, high⟩ | ⟨low, high⟩
    · have low : 97 ≤ c.toNat := low
      have high : c.toNat ≤ 122 := high
      omega
    · have low : 65 ≤ c.toNat := low
      have high : c.toNat ≤ 90 := high
      omega
  obtain ⟨low, high⟩ := range
  constructor
  · have other : ¬ isAsciiDigit c = true := by
      intro digit
      simp only [isAsciiDigit, Bool.and_eq_true, decide_eq_true_eq] at digit
      have small : c.toNat ≤ 57 := digit.2
      omega
    rw [isDecimal, decimalValue?, if_neg other, if_pos (by omega)]
    rfl
  · rintro rfl
    exact absurd low (by decide)

theorem fraction_eq (cs : List Char) :
    fractionText (fraction cs).1 ++ (fraction cs).2 = cs ∧ ∀ c ∈ (fraction cs).1, isDecimal c = true := by
  unfold fraction
  split
  · next cs' =>
    dsimp only
    split
    · exact ⟨rfl, List.forall_mem_nil _⟩
    · next some_digit =>
      rw [List.isEmpty_iff] at some_digit
      refine ⟨?_, fun c => List.mem_takeWhile_imp⟩
      rw [fractionText, if_neg some_digit, List.cons_append, List.takeWhile_append_dropWhile]
  · exact ⟨rfl, List.forall_mem_nil _⟩

/-- A fraction is found before letters. -/
theorem fraction_fractionText {frac rest : List Char} (digits : ∀ c ∈ frac, isDecimal c = true)
    (ends : ∀ c ∈ rest.head?, isDecimal c = false ∧ c ≠ '.') :
    fraction (fractionText frac ++ rest) = (frac, rest) := by
  unfold fractionText
  split
  · next none =>
    subst none
    unfold fraction
    split
    · next cs same =>
      exact absurd rfl (ends '.' (by rw [← List.nil_append rest, same]; rfl)).2
    · rfl
  · next some_digit =>
    have stop : ∀ c ∈ rest.head?, isDecimal c = false := fun c hc => (ends c hc).1
    rw [List.cons_append, fraction, Lexed.takeWhile_run digits stop, Lexed.dropWhile_run digits stop]
    simp [some_digit]

/-- The letters of a part stand before no digit and no point. -/
theorem Part.IsShaped.ends {p : Part} (h : p.IsShaped) (rest : List Char) :
    ∀ c ∈ (p.letters ++ rest).head?, isDecimal c = false ∧ c ≠ '.' := by
  intro c hc
  obtain ⟨d, letters, same⟩ := List.exists_cons_of_ne_nil h.some_letter
  rw [same] at hc
  cases hc
  exact not_isDecimal_of_isAsciiLetter (h.letters c (by simp [same]))

/-- One part is a number and all the letters behind it. -/
theorem part?_eq_some_iff {cs rest : List Char} {p : Part} :
    part? cs = some (p, rest) ↔ p.IsShaped ∧ EndsLetters rest ∧ cs = p.text ++ rest := by
  constructor
  · intro h
    unfold part? at h
    simp only [Option.ite_none_left_eq_some, Bool.or_eq_true, List.isEmpty_iff, not_or,
      Option.some.injEq, Prod.mk.injEq] at h
    obtain ⟨⟨some_digit, some_letter⟩, rfl, rfl⟩ := h
    obtain ⟨parts, digits⟩ := fraction_eq (cs.dropWhile isDecimal)
    refine ⟨⟨some_digit, fun c => List.mem_takeWhile_imp, digits, some_letter,
      fun c => List.mem_takeWhile_imp⟩, ?_, ?_⟩
    · intro c hc
      have stop := List.head?_dropWhile_not isAsciiLetter (fraction (cs.dropWhile isDecimal)).2
      rwa [Option.mem_def.1 hc] at stop
    · rw [Part.text, Part.number, List.append_assoc, List.append_assoc,
        List.takeWhile_append_dropWhile, parts, List.takeWhile_append_dropWhile]
  · rintro ⟨shaped, ends, rfl⟩
    have behind := shaped.ends rest
    -- The digits end at the point or at the letters.
    have stop : ∀ c ∈ (fractionText p.fraction ++ (p.letters ++ rest)).head?, isDecimal c = false := by
      unfold fractionText
      split
      · exact fun c hc => (behind c hc).1
      · rintro c ⟨⟩
        decide
    have parts : p.text ++ rest = p.whole ++ (fractionText p.fraction ++ (p.letters ++ rest)) := by
      simp [Part.text, Part.number]
    rw [parts, part?, Lexed.takeWhile_run shaped.whole stop, Lexed.dropWhile_run shaped.whole stop,
      fraction_fractionText shaped.fraction behind]
    simp [Lexed.takeWhile_run shaped.letters ends, Lexed.dropWhile_run shaped.letters ends,
      shaped.some_digit, shaped.some_letter]

/-! ### Measures -/

/-- A number of units. -/
structure Measure where
  part : Part
  unit : TimeUnit
  shaped : part.IsShaped
  named : part.letters.map Char.toLower = unit.name

/-- The measure as it is written. -/
def Measure.text (m : Measure) : List Char :=
  m.part.text

/-- The length of the measure. -/
def Measure.amount (m : Measure) : Float :=
  m.part.amount * Number.ofDecimal m.unit.nanoseconds 0

/-- The measures one after another. -/
def rowText (ms : List Measure) : List Char :=
  ms.flatMap Measure.text

/-- The sum of the measures, added to what there is from left to right. -/
def totalFrom (start : Float) (ms : List Measure) : Float :=
  ms.foldl (fun total m => total + m.amount) start

/-- The units get smaller from measure to measure. -/
def Decreasing (ms : List Measure) : Prop :=
  ms.Pairwise fun m n => n.unit.nanoseconds < m.unit.nanoseconds

/-- The units get smaller, and none is larger than the next that may come. -/
def DecreasingFrom (next : Nat) (ms : List Measure) : Prop :=
  (∀ m ∈ ms, next ≤ m.unit.rank) ∧ Decreasing ms

theorem decreasingFrom_cons {next : Nat} {m : Measure} {ms : List Measure} :
    DecreasingFrom next (m :: ms) ↔ next ≤ m.unit.rank ∧ DecreasingFrom (m.unit.rank + 1) ms := by
  unfold DecreasingFrom Decreasing
  rw [List.forall_mem_cons, List.pairwise_cons]
  constructor
  · rintro ⟨⟨first, -⟩, smaller, decreasing⟩
    exact ⟨first, fun n hn => TimeUnit.rank_lt_iff.2 (smaller n hn), decreasing⟩
  · rintro ⟨first, later, decreasing⟩
    refine ⟨⟨first, fun n hn => ?_⟩, fun n hn => TimeUnit.rank_lt_iff.1 (later n hn), decreasing⟩
    have := later n hn
    omega

/-- A digit comes first. -/
def BeginsWithDigit (cs : List Char) : Prop :=
  ∃ c ∈ cs.head?, isDecimal c = true

theorem Part.IsShaped.begins {p : Part} (h : p.IsShaped) (rest : List Char) :
    BeginsWithDigit (p.text ++ rest) := by
  obtain ⟨c, whole, same⟩ := List.exists_cons_of_ne_nil h.some_digit
  refine ⟨c, ?_, h.whole c (by simp [same])⟩
  simp [Part.text, Part.number, same]

/-- What is no digit does not come first where a digit does. -/
theorem BeginsWithDigit.head_ne {cs : List Char} (h : BeginsWithDigit cs) {e : Char}
    (other : isDecimal e = false) : cs.head? ≠ some e := by
  obtain ⟨c, hc, digit⟩ := h
  intro head
  obtain rfl : c = e := Option.mem_unique hc head
  rw [digit] at other
  cases other

theorem BeginsWithDigit.endsLetters {cs : List Char} (h : BeginsWithDigit cs) : EndsLetters cs := by
  intro c hc
  by_contra letter
  rw [Bool.not_eq_false] at letter
  exact h.head_ne (not_isDecimal_of_isAsciiLetter letter).1 hc

theorem rowText_cons (m : Measure) (ms : List Measure) : rowText (m :: ms) = m.text ++ rowText ms :=
  List.flatMap_cons

theorem beginsWithDigit_row {ms : List Measure} {tail : List Char}
    (h : ms ≠ [] ∨ BeginsWithDigit tail) : BeginsWithDigit (rowText ms ++ tail) := by
  cases ms with
  | nil => exact h.resolve_left (absurd rfl)
  | cons m ms =>
    rw [rowText_cons, List.append_assoc]
    exact m.shaped.begins _

theorem endsLetters_row (ms : List Measure) {tail : List Char} (ends : EndsLetters tail) :
    EndsLetters (rowText ms ++ tail) := by
  by_cases none : ms = []
  · subst none
    exact ends
  · exact (beginsWithDigit_row (.inl none)).endsLetters

/-- Where there is a part, the sum goes on behind it or ends there. -/
theorem sum_of_part {next : Nat} {total : Float} {cs rest : List Char} {p : Part}
    (part : part? cs = some (p, rest)) : sum next total cs =
      (TimeUnit.ofName? (p.letters.map Char.toLower)).elim (.error .unknownUnit) fun unit =>
        if unit.rank < next then .error .malformed
        else sum (unit.rank + 1) (total + p.amount * Number.ofDecimal unit.nanoseconds 0) rest := by
  have some_char : ¬ cs.isEmpty = true := by
    rw [List.isEmpty_iff]
    rintro rfl
    exact absurd (part?_length_lt part) (Nat.not_lt_zero _)
  rw [sum, if_neg some_char]
  split
  · next none =>
    rw [part] at none
    cases none
  · next same =>
    rw [part] at same
    cases same
    cases TimeUnit.ofName? (p.letters.map Char.toLower) <;> rfl

/-- A row of measures is added up, whatever comes after it. -/
theorem sum_measures {next : Nat} (total : Float) {ms : List Measure} {tail : List Char}
    (decreasing : DecreasingFrom next ms) (ends : EndsLetters tail) :
    ∃ after, sum next total (rowText ms ++ tail) = sum after (totalFrom total ms) tail := by
  induction ms generalizing next total with
  | nil => exact ⟨next, rfl⟩
  | cons m ms ih =>
    obtain ⟨first, later⟩ := decreasingFrom_cons.1 decreasing
    obtain ⟨after, same⟩ := ih (total + m.amount) later
    have part : part? (rowText (m :: ms) ++ tail) = some (m.part, rowText ms ++ tail) := by
      rw [part?_eq_some_iff, rowText_cons, List.append_assoc]
      exact ⟨m.shaped, endsLetters_row ms ends, rfl⟩
    refine ⟨after, ?_⟩
    rw [sum_of_part part, TimeUnit.ofName?_eq_some_iff.2 m.named, Option.elim_some,
      if_neg (Nat.not_lt.2 first)]
    exact same

/-- The letters of the part name no unit. -/
def Part.NamesNoUnit (p : Part) : Prop :=
  ∀ u : TimeUnit, p.letters.map Char.toLower ≠ u.name

theorem Part.ofName?_eq_none_iff {p : Part} :
    TimeUnit.ofName? (p.letters.map Char.toLower) = none ↔ p.NamesNoUnit := by
  rw [Option.eq_none_iff_forall_ne_some]
  exact forall_congr' fun u => not_congr TimeUnit.ofName?_eq_some_iff

/-- What a sum says about the text that it is the sum of. -/
def Tells (next : Nat) (start : Float) (cs : List Char) : Except DurationError Float → Prop
  | .ok total => ∃ ms, DecreasingFrom next ms ∧ cs = rowText ms ∧ total = totalFrom start ms
  | .error .unknownUnit => ∃ (ms : List Measure) (p : Part) (rest : List Char),
      DecreasingFrom next ms ∧ p.IsShaped ∧ p.NamesNoUnit ∧ EndsLetters rest ∧
        cs = rowText ms ++ (p.text ++ rest)
  | .error .malformed => True
  | .error .infinite => False

/-- One measure more comes first. -/
theorem Tells.cons {next : Nat} {total : Float} {rest : List Char} {m : Measure}
    (first : next ≤ m.unit.rank) {r : Except DurationError Float}
    (h : Tells (m.unit.rank + 1) (total + m.amount) rest r) : Tells next total (m.text ++ rest) r := by
  cases r with
  | ok sum =>
    obtain ⟨ms, later, rfl, rfl⟩ := h
    exact ⟨m :: ms, decreasingFrom_cons.2 ⟨first, later⟩, (rowText_cons m ms).symm, rfl⟩
  | error e =>
    cases e with
    | malformed => trivial
    | infinite => exact h
    | unknownUnit =>
      obtain ⟨ms, p, rest', later, shaped, unnamed, ends, rfl⟩ := h
      refine ⟨m :: ms, p, rest', decreasingFrom_cons.2 ⟨first, later⟩, shaped, unnamed, ends, ?_⟩
      rw [rowText_cons, List.append_assoc]

/-- What is added up is a row of measures; the sum ends early at letters that name no unit. -/
theorem tells_sum (next : Nat) (total : Float) (cs : List Char) :
    Tells next total cs (sum next total cs) := by
  fun_induction sum next total cs with
  | case1 next total cs empty =>
    rw [List.isEmpty_iff] at empty
    subst empty
    exact ⟨[], ⟨List.forall_mem_nil _, .nil⟩, rfl, rfl⟩
  | case2 | case4 => trivial
  | case3 next total cs _ p rest part unnamed =>
    obtain ⟨shaped, ends, rfl⟩ := part?_eq_some_iff.1 part
    exact ⟨[], p, rest, ⟨List.forall_mem_nil _, .nil⟩, shaped, Part.ofName?_eq_none_iff.1 unnamed, ends,
      rfl⟩
  | case5 next total cs _ p rest part unit named first ih =>
    obtain ⟨shaped, -, rfl⟩ := part?_eq_some_iff.1 part
    let m : Measure := ⟨p, unit, shaped, TimeUnit.ofName?_eq_some_iff.1 named⟩
    have first : next ≤ m.unit.rank := Nat.not_lt.1 first
    exact Tells.cons first ih

/-! ### Whole texts -/

/-- The sign of a duration. -/
inductive Sign where
  | none
  | plus
  | minus

/-- The sign as it is written. -/
def Sign.text : Sign → List Char
  | .none => []
  | .plus => ['+']
  | .minus => ['-']

/-- The length with its sign. -/
def Sign.apply (sign : Sign) (n : Nat) : Int :=
  match sign with
  | .none | .plus => n
  | .minus => -n

/-- The text without underscores is the sign and the measures, the units from large to small. -/
structure Writes (payload : List Char) (sign : Sign) (ms : List Measure) : Prop where
  some_measure : ms ≠ []
  decreasing : Decreasing ms
  text : payload.filter (· != '_') = sign.text ++ rowText ms

/-- The text follows the grammar of durations. -/
def IsDuration (payload : List Char) : Prop :=
  ∃ sign ms, Writes payload sign ms

/-- Behind a sign, if there is one, and some measures, the units from large to small, comes a number
with letters, and all the letters together name no unit. -/
def HasForeignUnit (payload : List Char) : Prop :=
  ∃ (sign : Sign) (ms : List Measure) (p : Part) (rest : List Char), Decreasing ms ∧ p.IsShaped ∧
    p.NamesNoUnit ∧ EndsLetters rest ∧
      payload.filter (· != '_') = sign.text ++ (rowText ms ++ (p.text ++ rest))

/-- The sum of the measures from the first to the last. -/
def total (ms : List Measure) : Float :=
  totalFrom (Number.ofDecimal 0 0) ms

/-- What the text amounts to, if it follows the grammar, is a finite number. -/
def StaysFinite (payload : List Char) : Prop :=
  ∀ sign ms, Writes payload sign ms → (Number.magnitude? (total ms)).isSome = true

theorem decreasingFrom_zero {ms : List Measure} : DecreasingFrom 0 ms ↔ Decreasing ms :=
  and_iff_right fun _ _ => Nat.zero_le _

/-- Some text is a sign, if there is one, and what follows it. -/
theorem exists_sign (payload : List Char) : ∃ (sign : Sign) (cs : List Char),
    payload.filter (· != '_') = sign.text ++ cs ∧
      nanoseconds payload = (magnitude cs).map sign.apply := by
  unfold nanoseconds
  split
  · next cs same => exact ⟨.minus, cs, same, rfl⟩
  · next cs same => exact ⟨.plus, cs, same, rfl⟩
  · exact ⟨.none, _, rfl, rfl⟩

/-- Before a digit a sign is taken off, and only one. -/
theorem nanoseconds_signed {payload cs : List Char} {sign : Sign}
    (text : payload.filter (· != '_') = sign.text ++ cs) (digit : BeginsWithDigit cs) :
    nanoseconds payload = (magnitude cs).map sign.apply := by
  unfold nanoseconds
  rw [text]
  cases sign with
  | plus | minus => rfl
  | none =>
    have bare : Sign.none.text ++ cs = cs := rfl
    rw [bare]
    split
    · exact absurd rfl (digit.head_ne (by decide : isDecimal '-' = false))
    · exact absurd rfl (digit.head_ne (by decide : isDecimal '+' = false))
    · rfl

/-- A finite sum to the nearest whole number. -/
def rounded (total : Float) : Except DurationError Nat :=
  (Number.roundMagnitude? total).elim (.error .infinite) .ok

theorem rounded_cases (total : Float) :
    ((Number.magnitude? total).isSome = true ∧ ∃ n, rounded total = .ok n) ∨
      ((Number.magnitude? total).isSome = false ∧ rounded total = .error .infinite) := by
  unfold rounded Number.roundMagnitude?
  cases Number.magnitude? total with
  | some ratio => exact .inl ⟨rfl, _, rfl⟩
  | none => exact .inr ⟨rfl, rfl⟩

theorem magnitude_of_digit {cs : List Char} (digit : BeginsWithDigit cs) :
    magnitude cs = (sum 0 (Number.ofDecimal 0 0) cs >>= rounded) := by
  have some_char : ¬ cs.isEmpty = true := by
    rw [List.isEmpty_iff]
    rintro rfl
    obtain ⟨c, hc, -⟩ := digit
    cases hc
  rw [magnitude, if_neg some_char]
  cases sum 0 (Number.ofDecimal 0 0) cs with
  | error e => rfl
  | ok total =>
    unfold rounded
    cases h : Number.roundMagnitude? total <;> simp [bind, Except.bind, h]

/-- A duration is the nearest whole number to the sum of its measures, with its sign; it has no length
when the sum is infinite. -/
theorem Writes.nanoseconds_eq {payload : List Char} {sign : Sign} {ms : List Measure}
    (h : Writes payload sign ms) : nanoseconds payload = (rounded (total ms)).map sign.apply := by
  have digit : BeginsWithDigit (rowText ms) := by
    rw [← List.append_nil (rowText ms)]
    exact beginsWithDigit_row (.inl h.some_measure)
  have none_left : EndsLetters [] := by
    rintro c ⟨⟩
  obtain ⟨after, same⟩ := sum_measures (Number.ofDecimal 0 0) (decreasingFrom_zero.2 h.decreasing)
    none_left
  have last (x : Float) : sum after x [] = .ok x := by
    rw [sum]
    rfl
  rw [List.append_nil, last] at same
  rw [nanoseconds_signed h.text digit, magnitude_of_digit digit, same]
  rfl

/-- Letters that name no unit are found out, whatever comes after them. -/
theorem HasForeignUnit.nanoseconds_eq {payload : List Char} (h : HasForeignUnit payload) :
    nanoseconds payload = .error .unknownUnit := by
  obtain ⟨sign, ms, p, rest, decreasing, shaped, unnamed, ends, text⟩ := h
  have digit : BeginsWithDigit (rowText ms ++ (p.text ++ rest)) :=
    beginsWithDigit_row (.inr (shaped.begins rest))
  obtain ⟨after, same⟩ := sum_measures (Number.ofDecimal 0 0) (decreasingFrom_zero.2 decreasing)
    (shaped.begins rest).endsLetters
  have part : part? (p.text ++ rest) = some (p, rest) := part?_eq_some_iff.2 ⟨shaped, ends, rfl⟩
  rw [sum_of_part part, Part.ofName?_eq_none_iff.2 unnamed] at same
  rw [nanoseconds_signed text digit, magnitude_of_digit digit, same]
  rfl

/-- A text follows the grammar, has a foreign unit, or is malformed. -/
theorem nanoseconds_cases (payload : List Char) : IsDuration payload ∨ HasForeignUnit payload ∨
    nanoseconds payload = .error .malformed := by
  obtain ⟨sign, cs, text, same⟩ := exists_sign payload
  by_cases empty : cs = []
  · subst empty
    exact .inr (.inr same)
  have told := tells_sum 0 (Number.ofDecimal 0 0) cs
  -- What is left after the sign is a sum, or it stops at a unit that is none, or it is malformed.
  cases hsum : sum 0 (Number.ofDecimal 0 0) cs with
  | ok total =>
    rw [hsum] at told
    obtain ⟨ms, decreasing, rfl, -⟩ := told
    have some_measure : ms ≠ [] := by
      rintro rfl
      exact empty rfl
    exact .inl ⟨sign, ms, some_measure, decreasingFrom_zero.1 decreasing, text⟩
  | error e =>
    rw [hsum] at told
    cases e with
    | infinite => exact told.elim
    | malformed =>
      refine .inr (.inr ?_)
      rw [same, magnitude, if_neg (by simp [empty]), hsum]
      rfl
    | unknownUnit =>
      obtain ⟨ms, p, rest, decreasing, shaped, unnamed, ends, rfl⟩ := told
      exact .inr (.inl ⟨sign, ms, p, rest, decreasingFrom_zero.1 decreasing, shaped, unnamed, ends, text⟩)

/-- A text that follows the grammar has a length, or its sum is infinite. -/
theorem Writes.cases {payload : List Char} {sign : Sign} {ms : List Measure}
    (h : Writes payload sign ms) :
    ((Number.magnitude? (total ms)).isSome = true ∧ ∃ n, nanoseconds payload = .ok n) ∨
      ((Number.magnitude? (total ms)).isSome = false ∧ nanoseconds payload = .error .infinite) := by
  rw [h.nanoseconds_eq]
  refine (rounded_cases (total ms)).imp ?_ ?_
  · rintro ⟨finite, n, hn⟩
    rw [hn]
    exact ⟨finite, _, rfl⟩
  · rintro ⟨infinite, none⟩
    rw [none]
    exact ⟨infinite, rfl⟩

/-- However a text is read as a row of measures, its value is the same. -/
theorem Writes.staysFinite {payload : List Char} {sign : Sign} {ms : List Measure}
    (h : Writes payload sign ms) (finite : (Number.magnitude? (total ms)).isSome = true) :
    StaysFinite payload := by
  intro sign' ms' h'
  rcases h'.cases with ⟨finite', -⟩ | ⟨-, none⟩
  · exact finite'
  · rcases h.cases with ⟨-, n, hn⟩ | ⟨infinite, -⟩
    · rw [hn] at none
      cases none
    · rw [finite] at infinite
      cases infinite

/-- A text whose value stays finite has a length when it follows the grammar, and only then.  Where it
does not, a foreign unit behind good measures is told apart from everything else.  A minus sign in
front of a length without sign negates it. -/
theorem nanoseconds_grammar (payload : List Char) :
    (StaysFinite payload → ((∃ n, nanoseconds payload = .ok n) ↔ IsDuration payload)) ∧
    (nanoseconds payload = .error .unknownUnit ↔ HasForeignUnit payload) ∧
    (nanoseconds payload = .error .malformed ↔ ¬ IsDuration payload ∧ ¬ HasForeignUnit payload) ∧
    ∀ ms n, Writes payload .none ms → nanoseconds payload = .ok n →
      nanoseconds ('-' :: payload) = .ok (-n) := by
  -- what follows the grammar is not refused
  have accepted (h : IsDuration payload) (e : DurationError) (refused : nanoseconds payload = .error e) :
      e = .infinite := by
    obtain ⟨sign, ms, h⟩ := h
    rcases h.cases with ⟨-, n, hn⟩ | ⟨-, none⟩
    · rw [hn] at refused
      cases refused
    · rw [none] at refused
      cases refused
      rfl
  refine ⟨fun finite => ⟨?_, ?_⟩, ⟨?_, HasForeignUnit.nanoseconds_eq⟩, ⟨?_, ?_⟩, ?_⟩
  · rintro ⟨n, hn⟩
    rcases nanoseconds_cases payload with h | h | h
    · exact h
    · rw [h.nanoseconds_eq] at hn
      cases hn
    · rw [h] at hn
      cases hn
  · rintro ⟨sign, ms, h⟩
    rcases h.cases with ⟨-, some⟩ | ⟨infinite, -⟩
    · exact some
    · rw [finite sign ms h] at infinite
      cases infinite
  · intro unknown
    rcases nanoseconds_cases payload with h | h | h
    · cases accepted h _ unknown
    · exact h
    · rw [h] at unknown
      cases unknown
  · intro malformed
    refine ⟨fun h => ?_, fun h => ?_⟩
    · cases accepted h _ malformed
    · rw [h.nanoseconds_eq] at malformed
      cases malformed
  · rintro ⟨wrong, known⟩
    exact ((nanoseconds_cases payload).resolve_left wrong).resolve_left known
  · intro ms n h hn
    have digit : BeginsWithDigit (rowText ms) := by
      rw [← List.append_nil (rowText ms)]
      exact beginsWithDigit_row (.inl h.some_measure)
    have bare : payload.filter (· != '_') = rowText ms := h.text
    refine nanoseconds_negated (fun c hc => ?_) hn
    rw [bare] at hc
    constructor
    · rintro rfl
      exact digit.head_ne (by decide) hc
    · rintro rfl
      exact digit.head_ne (by decide) hc

/-- An hour, and thirty and a half minutes. -/
def mixedMeasures : List Measure := [
  ⟨⟨['1'], [], ['h']⟩, .hour, ⟨by decide, List.all_eq_true.1 rfl, List.forall_mem_nil _, by decide,
    List.all_eq_true.1 rfl⟩, rfl⟩,
  ⟨⟨['3', '0'], ['5'], ['M']⟩, .minute, ⟨by decide, List.all_eq_true.1 rfl, List.all_eq_true.1 rfl,
    by decide, List.all_eq_true.1 rfl⟩, rfl⟩]

theorem mixedMeasures_written : Writes "1h_30.5M".toList .none mixedMeasures :=
  ⟨by decide, by simp [Decreasing, mixedMeasures, TimeUnit.nanoseconds], rfl⟩

theorem nanoseconds_mixed : StaysFinite "1h_30.5M".toList ∧ (∃ n, nanoseconds "1h_30.5M".toList = .ok n) ∧
    ∃ n, nanoseconds "1h_30.5M".toList = .ok n ∧ nanoseconds "-1h_30.5M".toList = .ok (-n) := by
  have finite : StaysFinite "1h_30.5M".toList := mixedMeasures_written.staysFinite rfl
  have grammar := nanoseconds_grammar "1h_30.5M".toList
  obtain ⟨n, hn⟩ := (grammar.1 finite).2 ⟨_, _, mixedMeasures_written⟩
  exact ⟨finite, ⟨n, hn⟩, n, hn, grammar.2.2.2 _ n mixedMeasures_written hn⟩

end Duration

end Plc.Literal
