/-
Digits of every script.

Unicode gives each script its own run of ten decimal digits; `decimalValue?`
reads one of them.  `isDigit` is wider: it also holds of superscripts,
subscripts, circled digits and the like, which have a digit value but cannot be
used to write a number in positional notation.

* `isDigit_of_decimalValue?` — a decimal digit is a digit;
* `natOfDigits_append_singleton` — the positional rule for one more digit;
* `decimal?` — the number that decimal digits make, if there are not too many.
-/

namespace Plc.Text

/-- The code points of the zeros: each begins a run of ten decimal digits. -/
def decimalZeros : List Nat := [
    0x30, 0x660, 0x6F0, 0x7C0, 0x966, 0x9E6, 0xA66, 0xAE6, 0xB66, 0xBE6, 0xC66, 0xCE6, 0xD66, 0xDE6, 0xE50,
    0xED0, 0xF20, 0x1040, 0x1090, 0x17E0, 0x1810, 0x1946, 0x19D0, 0x1A80, 0x1A90, 0x1B50, 0x1BB0, 0x1C40,
    0x1C50, 0xA620, 0xA8D0, 0xA900, 0xA9D0, 0xA9F0, 0xAA50, 0xABF0, 0xFF10, 0x104A0, 0x10D30, 0x11066,
    0x110F0, 0x11136, 0x111D0, 0x112F0, 0x11450, 0x114D0, 0x11650, 0x116C0, 0x11730, 0x118E0, 0x11950,
    0x11C50, 0x11D50, 0x11DA0, 0x16A60, 0x16AC0, 0x16B50, 0x1D7CE, 0x1D7D8, 0x1D7E2, 0x1D7EC, 0x1D7F6,
    0x1E140, 0x1E2F0, 0x1E950, 0x1FBF0]

/-- Closed ranges of characters with a digit value that are no decimal digits. -/
def otherDigits : List (Nat × Nat) := [
    (0xB2, 0xB3), (0xB9, 0xB9), (0x1369, 0x1371), (0x19DA, 0x19DA), (0x2070, 0x2070), (0x2074, 0x2079),
    (0x2080, 0x2089), (0x2460, 0x2468), (0x2474, 0x247C), (0x2488, 0x2490), (0x24EA, 0x24EA),
    (0x24F5, 0x24FD), (0x24FF, 0x24FF), (0x2776, 0x277E), (0x2780, 0x2788), (0x278A, 0x2792),
    (0x10A40, 0x10A43), (0x10E60, 0x10E68), (0x11052, 0x1105A), (0x1F100, 0x1F10A)]

/-- The character lies in one of the closed ranges of code points. -/
def inRanges (ranges : List (Nat × Nat)) (c : Char) : Bool :=
  ranges.any fun r => r.1 ≤ c.toNat && c.toNat ≤ r.2

/-- One of the ASCII digits `0` to `9`. -/
def isAsciiDigit (c : Char) : Bool :=
  '0' ≤ c && c ≤ '9'

/-- The value of a decimal digit of any script. -/
def decimalValue? (c : Char) : Option Nat :=
  if isAsciiDigit c then some (c.toNat - 48)
  else if c.toNat < 128 then none
  else (decimalZeros.find? fun z => z ≤ c.toNat && c.toNat < z + 10).map (c.toNat - ·)

/-- A decimal digit of any script. -/
def isDecimal (c : Char) : Bool :=
  (decimalValue? c).isSome

/-- A character with a digit value: a decimal digit, a superscript digit, a circled digit, … -/
def isDigit (c : Char) : Bool :=
  isDecimal c || (128 ≤ c.toNat && inRanges otherDigits c)

theorem isDigit_of_decimalValue? {c : Char} {n : Nat} (h : decimalValue? c = some n) :
    isDigit c = true := by
  simp [isDigit, isDecimal, h]

/-- The value of a digit in base sixteen or less. -/
def hexValue? (c : Char) : Option Nat :=
  if isAsciiDigit c then some (c.toNat - 48)
  else if 'a' ≤ c && c ≤ 'f' then some (c.toNat - 87)
  else if 'A' ≤ c && c ≤ 'F' then some (c.toNat - 55)
  else none

/-- A hexadecimal digit. -/
def isHexDigit (c : Char) : Bool :=
  (hexValue? c).isSome

/-- The number written by digits with the given values, most significant first. -/
def natOfValues (base : Nat) (digits : List Nat) : Nat :=
  digits.foldl (fun n d => base * n + d) 0

/-- The number written in decimal; characters that are no decimal digit count as nothing. -/
def natOfDigits (cs : List Char) : Nat :=
  natOfValues 10 (cs.filterMap decimalValue?)

/-- The number written in a base of at most sixteen; other characters count as nothing. -/
def natOfHex (base : Nat) (cs : List Char) : Nat :=
  natOfValues base (cs.filterMap hexValue?)

/-- The most digits that a whole number in decimal has, where it is read and where it is written. -/
def maxDigits : Nat := 4300

/-- The whole number that decimal digits make; underscores between them do not count.  None when there
is no digit, or more than `maxDigits`. -/
def decimal? (cs : List Char) : Option Nat :=
  let digits := cs.countP (· != '_')
  if digits = 0 || maxDigits < digits then none else some (natOfDigits cs)

theorem natOfDigits_append_singleton {cs : List Char} {c : Char} {d : Nat}
    (h : decimalValue? c = some d) : natOfDigits (cs ++ [c]) = 10 * natOfDigits cs + d := by
  simp [natOfDigits, natOfValues, h]

end Plc.Text
