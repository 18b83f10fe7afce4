/-
Dates, times of day and durations.

Of a calendar literal only the shape is checked, not that the day exists: a year of four digits,
other fields of one or two, and seconds with an optional fraction.  One newline after the last
field is let pass.

A duration is written as parts such as `1d2h` or `1.5s`: numbers, each followed by a unit, the units
strictly decreasing.  A sign may come first, underscores are ignored and the case of units does
not matter.  The parts are added as doubles from left to right, and the sum is rounded once, to the
nearest nanosecond, a tie going to the even one.

* `nanoseconds` — the length of a duration, or why there is none;
* `nanoseconds_negated` — a minus sign in front negates the length.
-/
import Plc.Number.Double
import Plc.Text.Digit
import Plc.Text.Letter

namespace Plc.Literal.Calendar

open Text

/-- A field of at least `least` and at most `most` digits; gives the characters after it. -/
def field? (least most : Nat) (cs : List Char) : Option (List Char) :=
  let n := (cs.takeWhile isDecimal).length
  if least ≤ n && n ≤ most then some (cs.dropWhile isDecimal) else none

/-- A separator; gives the characters after it. -/
def mark? (c : Char) : List Char → Option (List Char)
  | d :: cs => if d = c then some cs else none
  | [] => none

/-- Nothing is left, or one newline. -/
def atEnd (cs : List Char) : Bool :=
  cs.isEmpty || cs == ['\n']

/-- A year, a month and a day; gives the characters after them. -/
def day? (cs : List Char) : Option (List Char) := do
  field? 1 2 (← mark? '-' (← field? 1 2 (← mark? '-' (← field? 4 4 cs))))

/-- A fraction of a second, or nothing. -/
def secondsEnd (cs : List Char) : Bool :=
  match cs with
  | '.' :: cs' => !(cs'.takeWhile isDecimal).isEmpty && atEnd (cs'.dropWhile isDecimal)
  | _ => atEnd cs

/-- An hour, a minute and, if given, a second, and then the end. -/
def isClock (cs : List Char) : Bool :=
  match (do field? 1 2 (← mark? ':' (← field? 1 2 cs))) with
  | some (':' :: rest) =>
    match field? 1 2 rest with
    | some rest' => secondsEnd rest'
    | none => false
  | some rest => atEnd rest
  | none => false

/-- The text has the shape of a date. -/
def isDate (cs : List Char) : Bool :=
  match day? cs with
  | some rest => atEnd rest
  | none => false

/-- The text has the shape of a time of day. -/
def isTimeOfDay (cs : List Char) : Bool :=
  isClock cs

/-- The text has the shape of a date and a time of day, joined by a hyphen. -/
def isDateAndTime (cs : List Char) : Bool :=
  match (do mark? '-' (← day? cs)) with
  | some rest => isClock rest
  | none => false

end Plc.Literal.Calendar

namespace Plc.Literal

open Text

/-- The units of durations, the largest first. -/
inductive TimeUnit where
  | day
  | hour
  | minute
  | second
  | millisecond
  | microsecond
  | nanosecond
  deriving DecidableEq

namespace TimeUnit

/-- The place of the unit among all units, counted from the largest. -/
def rank : TimeUnit → Nat
  | .day => 0
  | .hour => 1
  | .minute => 2
  | .second => 3
  | .millisecond => 4
  | .microsecond => 5
  | .nanosecond => 6

/-- The length of the unit. -/
def nanoseconds : TimeUnit → Nat
  | .day => 86400000000000
  | .hour => 3600000000000
  | .minute => 60000000000
  | .second => 1000000000
  | .millisecond => 1000000
  | .microsecond => 1000
  | .nanosecond => 1

/-- The unit with the given name in small letters. -/
def ofName? (name : List Char) : Option TimeUnit :=
  match name with
  | ['d'] => some .day
  | ['h'] => some .hour
  | ['m'] => some .minute
  | ['s'] => some .second
  | ['m', 's'] => some .millisecond
  | ['u', 's'] => some .microsecond
  | ['n', 's'] => some .nanosecond
  | _ => none

end TimeUnit

/-- Why a text is no duration. -/
inductive DurationError where
  /-- The text is no sequence of numbers with decreasing units. -/
  | malformed
  /-- A number is followed by letters that name no unit. -/
  | unknownUnit
  /-- The parts have no finite sum. -/
  | infinite
  deriving DecidableEq

namespace Duration

/-- A number and the letters after it. -/
structure Part where
  whole : List Char
  fraction : List Char
  letters : List Char

/-- The number of a part. -/
def Part.amount (p : Part) : Float :=
  Number.ofDecimal (natOfDigits (p.whole ++ p.fraction)) (-(p.fraction.length : Int))

/-- A point and the digits after it, if there are any; and the characters after them. -/
def fraction (cs : List Char) : List Char × List Char :=
  match cs with
  | '.' :: cs' =>
    let digits := cs'.takeWhile isDecimal
    if digits.isEmpty then ([], cs) else (digits, cs'.dropWhile isDecimal)
  | _ => ([], cs)

/-- The first part of a text and the characters after it. -/
def part? (cs : List Char) : Option (Part × List Char) :=
  let whole := cs.takeWhile isDecimal
  let (frac, rest) := fraction (cs.dropWhile isDecimal)
  let letters := rest.takeWhile isAsciiLetter
  if whole.isEmpty || letters.isEmpty then none
  else some (⟨whole, frac, letters⟩, rest.dropWhile isAsciiLetter)

theorem length_dropWhile_le (p : Char → Bool) (cs : List Char) :
    (cs.dropWhile p).length ≤ cs.length :=
  (List.dropWhile_sublist p).length_le

theorem fraction_length_le (cs : List Char) : (fraction cs).2.length ≤ cs.length := by
  unfold fraction
  split
  · next cs' =>
    dsimp only
    split
    · exact Nat.le_refl _
    · have := length_dropWhile_le isDecimal cs'
      simp only [List.length_cons]
      omega
  · exact Nat.le_refl _

theorem part?_length_lt {cs rest : List Char} {p : Part} (h : part? cs = some (p, rest)) :
    rest.length < cs.length := by
  unfold part? at h
  cases cs with
  | nil => simp at h
  | cons c cs =>
    simp only [Option.ite_none_left_eq_some, Bool.or_eq_true, List.isEmpty_iff, not_or,
      Option.some.injEq, Prod.mk.injEq] at h
    obtain ⟨⟨some_digit, -⟩, -, rfl⟩ := h
    have step : isDecimal c = true := by
      cases hc : isDecimal c with
      | true => rfl
      | false => simp [hc] at some_digit
    rw [List.dropWhile_cons_of_pos step]
    have h₁ := length_dropWhile_le isDecimal cs
    have h₂ := fraction_length_le (cs.dropWhile isDecimal)
    have h₃ := length_dropWhile_le isAsciiLetter (fraction (cs.dropWhile isDecimal)).2
    simp only [List.length_cons]
    omega

/-- Adds up the parts of a text.  `next` is the least rank that the next unit may have. -/
def sum (next : Nat) (total : Float) (cs : List Char) : Except DurationError Float :=
  if cs.isEmpty then .ok total
  else
    match _h : part? cs with
    | none => .error .malformed
    | some (p, rest) =>
      match TimeUnit.ofName? (p.letters.map Char.toLower) with
      | none => .error .unknownUnit
      | some unit =>
        if unit.rank < next then .error .malformed
        else sum (unit.rank + 1) (total + p.amount * Number.ofDecimal unit.nanoseconds 0) rest
termination_by cs.length
decreasing_by exact part?_length_lt _h

/-- The length of a duration without sign. -/
def magnitude (cs : List Char) : Except DurationError Nat :=
  if cs.isEmpty then .error .malformed
  else do
    let total ← sum 0 (Number.ofDecimal 0 0) cs
    match Number.roundMagnitude? total with
    | some n => .ok n
    | none => .error .infinite

/-- The length in nanoseconds of the duration written after `T#`. -/
def nanoseconds (payload : List Char) : Except DurationError Int :=
  match payload.filter (· != '_') with
  | '-' :: cs => (magnitude cs).map fun (n : Nat) => -(n : Int)
  | '+' :: cs => (magnitude cs).map fun (n : Nat) => (n : Int)
  | cs => (magnitude cs).map fun (n : Nat) => (n : Int)

theorem nanoseconds_negated {payload : List Char} {n : Int}
    (unsigned : ∀ c ∈ (payload.filter (· != '_')).head?, c ≠ '-' ∧ c ≠ '+')
    (h : nanoseconds payload = .ok n) : nanoseconds ('-' :: payload) = .ok (-n) := by
  unfold nanoseconds at *
  simp only [List.filter_cons, show ('-' != '_') = true from rfl, if_true]
  cases e : payload.filter (· != '_') with
  | nil => rw [e] at h; simp [magnitude, Except.map] at h
  | cons c cs =>
    rw [e] at h unsigned
    have hc := unsigned c rfl
    split at h
    · next heq => exact absurd (List.cons.inj heq).1 hc.1
    · next heq => exact absurd (List.cons.inj heq).1 hc.2
    · cases hm : magnitude (c :: cs) with
      | error err => rw [hm] at h; simp [Except.map] at h
      | ok m =>
        rw [hm] at h
        simp only [Except.map, Except.ok.injEq] at h ⊢
        rw [h]

end Duration

end Plc.Literal
