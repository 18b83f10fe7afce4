/-
Double-precision numbers from and to exact ratios.

`ofRatio` rounds a ratio of naturals to the nearest double, a tie going to the
even neighbour; `ofDecimal` does so for a decimal number however large its
exponent.  `magnitude?` takes a double apart again, and `roundHalfEven` gives the
natural number nearest to a ratio.

* `roundHalfEven_near` — the rounded number is within half a unit of the ratio.
-/

namespace Plc.Number

/-- The natural number nearest to a ratio; a tie goes to the even neighbour. -/
def roundHalfEven (num den : Nat) : Nat :=
  let q := num / den
  let r := num % den
  if 2 * r < den then q
  else if den < 2 * r then q + 1
  else if q % 2 = 0 then q else q + 1

theorem roundHalfEven_near {num den : Nat} (h : 0 < den) :
    2 * num ≤ (2 * roundHalfEven num den + 1) * den ∧
      2 * roundHalfEven num den * den ≤ 2 * num + den := by
  have parts : num / den * den + num % den = num := by
    rw [Nat.mul_comm]
    exact Nat.div_add_mod num den
  have small := Nat.mod_lt num h
  unfold roundHalfEven
  simp only
  repeat' split
  all_goals
    simp only [Nat.add_mul, Nat.mul_assoc, Nat.mul_add, Nat.one_mul]
    omega

/-- Two to the power of a number. -/
def twoTo (n : Nat) : Nat := Nat.pow 2 n

/-- Ten to the power of a number. -/
def tenTo (n : Nat) : Nat := Nat.pow 10 n

/-- The bits of positive infinity. -/
def infinityBits : Nat := 0x7FF * twoTo 52

/-- The binary exponent of the least binary digit kept for the ratio `num / den`: doubles have 53
binary digits, and none below 2^-1074. -/
def unitExponent (num den : Nat) : Int :=
  let guess : Int := (num.log2 : Int) - (den.log2 : Int)
  let fits := if 0 ≤ guess then den * twoTo guess.toNat ≤ num else den ≤ num * twoTo (-guess).toNat
  let exponent := if fits then guess else guess - 1
  max (exponent - 52) (-1074)

/-- The bits of the double nearest to a ratio, ties to even; infinity when it is too large. -/
def bitsOfRatio (num den : Nat) : Nat :=
  if num = 0 then 0
  else
    let unit := unitExponent num den
    let digits :=
      if 0 ≤ unit then roundHalfEven num (den * twoTo unit.toNat)
      else roundHalfEven (num * twoTo (-unit).toNat) den
    min infinityBits ((unit + 1074).toNat * twoTo 52 + digits)

/-- The double nearest to a ratio. -/
def ofRatio (num den : Nat) : Float :=
  Float.ofBits (bitsOfRatio num den).toUInt64

/-- The double nearest to `mantissa · 10^exponent`.  An exponent so large or so small that the
result is infinite or zero is settled without forming the power. -/
def ofDecimal (mantissa : Nat) (exponent : Int) : Float :=
  let digits : Int := (Nat.toDigits 10 mantissa).length
  if mantissa = 0 then ofRatio 0 1
  else if 310 < exponent + digits then Float.ofBits infinityBits.toUInt64
  else if exponent + digits < -330 then ofRatio 0 1
  else if 0 ≤ exponent then ofRatio (mantissa * tenTo exponent.toNat) 1
  else ofRatio mantissa (tenTo (-exponent).toNat)

/-- The magnitude of a finite double as a ratio; none for infinities and not-a-number. -/
def magnitude? (x : Float) : Option (Nat × Nat) :=
  let bits := x.toBits.toNat % twoTo 63
  let field := bits / twoTo 52
  let digits := bits % twoTo 52
  if field = 0x7FF then none
  else if field = 0 then some (digits, twoTo 1074)
  else if 1075 ≤ field then some ((twoTo 52 + digits) * twoTo (field - 1075), 1)
  else some (twoTo 52 + digits, twoTo (1075 - field))

/-- The natural number nearest to the magnitude of a finite double, ties to even. -/
def roundMagnitude? (x : Float) : Option Nat :=
  (magnitude? x).map fun (num, den) => roundHalfEven num den

end Plc.Number
