import MediaViews.Double.Basic

/-! The shortest decimal that reads back as a given binary64 number, and its layout as text. -/
namespace MediaViews

structure Decimal where
  digits : Nat
  exponent : Int
  deriving DecidableEq, Inhabited

namespace Double

def decimalLeBinary (a : Nat) (k : Int) (b : Nat) (e : Int) : Bool :=
  a * Nat.pow 10 k.toNat * Nat.pow 2 (-e).toNat ≤ b * Nat.pow 2 e.toNat * Nat.pow 10 (-k).toNat

def binaryLeDecimal (b : Nat) (e : Int) (a : Nat) (k : Int) : Bool :=
  b * Nat.pow 2 e.toNat * Nat.pow 10 (-k).toNat ≤ a * Nat.pow 10 k.toNat * Nat.pow 2 (-e).toNat

/-- The reals that round to a rank, in quarters of its last place: they reach half a place up, and
half a place down unless the rank opens a binade. The ends belong to even significands. -/
def roundsTo (rank : Nat) (candidate : Nat) (k : Int) : Bool :=
  let s := significand rank
  let e := exponent rank - 2
  let low := if s = Nat.pow 2 52 && exponent rank != -1074 then 4 * s - 1 else 4 * s - 2
  let high := 4 * s + 2
  if s % 2 = 0 then binaryLeDecimal low e candidate k && decimalLeBinary candidate k high e
  else !decimalLeBinary candidate k low e && !binaryLeDecimal high e candidate k

def floorOnGrid (rank : Nat) (k : Int) : Nat :=
  let e := exponent rank
  significand rank * Nat.pow 2 e.toNat * Nat.pow 10 (-k).toNat /
    (Nat.pow 2 (-e).toNat * Nat.pow 10 k.toNat)

/-- The `p` with `10 ^ (p - 1) ≤ magnitude < 10 ^ p`, counted after a shift by 345 places that
leaves at least one digit before the point. -/
def decimalPlaces (rank : Nat) : Int :=
  (Nat.toDigits 10 (floorOnGrid rank (-345))).length - 345

def isNearerAbove (rank : Nat) (below : Nat) (k : Int) : Bool :=
  let middle := 2 * below + 1
  let s := 2 * significand rank
  decimalLeBinary middle k s (exponent rank) &&
    (below % 2 = 1 || !binaryLeDecimal s (exponent rank) middle k)

def hitOnGrid (rank : Nat) (k : Int) : Option Nat :=
  let below := floorOnGrid rank k
  match roundsTo rank below k, roundsTo rank (below + 1) k with
  | true, true => some (if isNearerAbove rank below k then below + 1 else below)
  | true, false => some below
  | false, true => some (below + 1)
  | false, false => none

def trimZeros : Nat → Decimal → Decimal
  | 0, d => d
  | fuel + 1, d =>
    if d.digits % 10 = 0 then trimZeros fuel ⟨d.digits / 10, d.exponent + 1⟩ else d

def shortest (rank : Nat) : Decimal :=
  if rank = 0 then ⟨0, 0⟩
  else
    let places := decimalPlaces rank
    let grids := (List.range 17).map fun n : Nat => places - 1 - n
    match grids.findSome? fun k => (hitOnGrid rank k).map (Decimal.mk · k) with
    | some d => trimZeros 17 d
    | none => ⟨floorOnGrid rank (places - 17), places - 17⟩

end Double

/-- How a decimal is laid out: which places of the point are written without an exponent, whether
a whole number keeps `.0`, and the texts of the special values. The place counts the digits before
the point. -/
structure DecimalLayout where
  positional : Int → Bool
  keepsPoint : Bool
  nan : String
  infinity : String

namespace DecimalLayout

def positionalText (layout : DecimalLayout) (digits : List Char) (place : Int) : List Char :=
  if place ≤ 0 then '0' :: '.' :: List.replicate (-place).toNat '0' ++ digits
  else if place < digits.length then
    digits.take place.toNat ++ '.' :: digits.drop place.toNat
  else
    digits ++ List.replicate (place.toNat - digits.length) '0' ++
      if layout.keepsPoint then ['.', '0'] else []

def exponentText (digits : List Char) (place : Int) : List Char :=
  let point := if digits.length = 1 then [] else ['.']
  let power := place - 1
  digits.take 1 ++ point ++ digits.drop 1 ++ ['e', if power < 0 then '-' else '+'] ++
    Nat.toDigits 10 power.natAbs

def magnitudeText (layout : DecimalLayout) (d : Decimal) : List Char :=
  let digits := Nat.toDigits 10 d.digits
  let place := digits.length + d.exponent
  if layout.positional place then layout.positionalText digits place
  else exponentText digits place

def write (layout : DecimalLayout) : Double → List Char
  | .nan => layout.nan.toList
  | .number negative rank =>
    let sign := if negative then ['-'] else []
    if rank.val < Double.infinityRank then
      sign ++ layout.magnitudeText (Double.shortest rank.val)
    else sign ++ layout.infinity.toList

end DecimalLayout
end MediaViews
