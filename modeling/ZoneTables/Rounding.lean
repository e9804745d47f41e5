/-!
# Rounding

Seconds are rounded to minutes with the half going away from zero, and fractions to integers and to
binary64 numbers with the half going to the even neighbour.
-/

namespace ZoneTables

/-- The nearest whole minute, in seconds; thirty seconds go away from zero. -/
def roundToMinute (seconds : Int) : Int :=
  let minutes : Int := (seconds.natAbs + 30) / 60
  (if seconds < 0 then -1 else 1) * (minutes * 60)

/-- The integer nearest to a fraction; a half goes to the even neighbour. -/
def roundToEven (numerator denominator : Nat) : Nat :=
  let floor := numerator / denominator
  let twice := 2 * (numerator % denominator)
  if twice < denominator ∨ (twice = denominator ∧ floor % 2 = 0) then floor else floor + 1

/-- The number `significand * 2 ^ exponent`. -/
structure Binary64 where
  significand : Nat
  exponent : Int
deriving DecidableEq

namespace Binary64

/-- A fraction times a power of two, as numerator and denominator. -/
def scaled (numerator denominator : Nat) (power : Int) : Nat × Nat :=
  (numerator <<< power.toNat, denominator <<< (-power).toNat)

/-- The exponent of the greatest power of two that is not above a positive fraction. -/
def leadingExponent (numerator denominator : Nat) : Int :=
  let guess : Int := numerator.log2 - denominator.log2
  let (n, d) := scaled numerator denominator (-guess)
  if n < d then guess - 1 else guess

/-- The binary64 number nearest to a fraction. Its significand has 53 bits, or fewer below the least
exponent. -/
def nearest (numerator denominator : Nat) : Binary64 :=
  let exponent := max (leadingExponent numerator denominator - 52) (-1074)
  let (n, d) := scaled numerator denominator (-exponent)
  ⟨roundToEven n d, exponent⟩

/-- The integer nearest to a number. -/
def toInteger (x : Binary64) : Nat :=
  let (n, d) := scaled x.significand 1 x.exponent
  roundToEven n d

/-- The number is below the least that no longer counts as finite. -/
def isFinite (x : Binary64) : Bool := x.toInteger < 1 <<< 1024

/-- The integer nearest to the binary64 number that is nearest to a fraction, if that is finite. An
integer is taken to its nearest binary64 number. -/
def nearestInteger? (numerator : Int) (denominator : Nat) : Option Int :=
  let x := nearest numerator.natAbs denominator
  if x.isFinite then some (if numerator < 0 then -(x.toInteger : Int) else x.toInteger) else none

end Binary64
end ZoneTables
