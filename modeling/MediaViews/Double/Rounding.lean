import MediaViews.Double.Basic

/-! The binary64 number nearest to a ratio and to a whole number, and scaling by powers of ten. -/
namespace MediaViews.Double

/-- The `b` with `2 ^ b ≤ num / den < 2 ^ (b + 1)`, for positive arguments. -/
def binade (num den : Nat) : Int :=
  let guess : Int := (num.log2 : Int) - (den.log2 : Int)
  let reached :=
    if 0 ≤ guess then den * Nat.pow 2 guess.toNat ≤ num else den ≤ num * Nat.pow 2 (-guess).toNat
  if reached then guess else guess - 1

/-- The quotient rounded to the nearest whole number, a tie going to the even one. -/
def roundQuotient (num den : Nat) : Nat :=
  let quotient := num / den
  let rest := num % den
  if den < 2 * rest || (2 * rest == den && quotient % 2 == 1) then quotient + 1 else quotient

/-- The rank nearest to `num / den`. A quotient that rounds up to the next power of two gives the
rank of that power, since ranks run on from one binade to the next. -/
def nearestRank (num den : Nat) : Nat :=
  if num = 0 then 0
  else
    let exponent := max (-1074) (binade num den - 52)
    let quotient :=
      if 0 ≤ exponent then roundQuotient num (den * Nat.pow 2 exponent.toNat)
      else roundQuotient (num * Nat.pow 2 (-exponent).toNat) den
    (exponent + 1074).toNat * Nat.pow 2 52 + quotient

def ofInt (n : Int) : Double := ofRank (n < 0) (nearestRank n.natAbs 1)

def mulRank (a b : Nat) : Nat :=
  let e := exponent a + exponent b
  nearestRank (significand a * significand b * Nat.pow 2 e.toNat) (Nat.pow 2 (-e).toNat)

def divRank (a b : Nat) : Nat :=
  let e := exponent a - exponent b
  nearestRank (significand a * Nat.pow 2 e.toNat) (significand b * Nat.pow 2 (-e).toNat)

def tenRank (power : Nat) : Nat := nearestRank (Nat.pow 10 power) 1

/-- A significand of 64 bits times a power of ten. The significand and the power are rounded before
they are multiplied, and the product is rounded again. -/
def scaleUp (significand power : Nat) : Nat :=
  if significand = 0 then 0
  else if power ≤ 308 then mulRank (nearestRank significand 1) (tenRank power)
  else infinityRank

/-- A significand of 64 bits divided by a power of ten, in two steps if no finite number holds the
power. Nothing is left after both steps of a power past 10^616. -/
def scaleDown (significand power : Nat) : Nat :=
  let rank := nearestRank significand 1
  if power ≤ 308 then divRank rank (tenRank power)
  else if power ≤ 616 then divRank (divRank rank (tenRank 308)) (tenRank (power - 308))
  else 0

def ofScaled (negative : Bool) (significand : Nat) (power : Int) : Double :=
  ofRank negative
    (if 0 ≤ power then scaleUp significand power.toNat else scaleDown significand (-power).toNat)

end MediaViews.Double
