/-! Binary64 numbers, named by rank: the nonnegative ones are counted from zero up, so the order of
magnitudes is the order of ranks. -/
namespace MediaViews

def Double.infinityRank : Nat := 2047 * Nat.pow 2 52

inductive Double where
  | nan
  | number (negative : Bool) (rank : Fin (Double.infinityRank + 1))
  deriving DecidableEq, Inhabited

namespace Double

/-- Ranks past infinity are infinity. -/
def ofRank (negative : Bool) (rank : Nat) : Double :=
  .number negative ⟨min rank infinityRank, Nat.lt_succ_of_le (Nat.min_le_right ..)⟩

def zero (negative : Bool) : Double := ofRank negative 0

def infinity (negative : Bool) : Double := ofRank negative infinityRank

def isFinite : Double → Bool
  | nan => false
  | number _ rank => rank.val < infinityRank

/-- The magnitude of a finite rank is `significand * 2 ^ exponent`. -/
def significand (rank : Nat) : Nat :=
  if rank < Nat.pow 2 52 then rank else Nat.pow 2 52 + rank % Nat.pow 2 52

def exponent (rank : Nat) : Int :=
  if rank < Nat.pow 2 52 then -1074 else (rank / Nat.pow 2 52 : Nat) - 1075

def position : Double → Option Int
  | nan => none
  | number negative rank => some (if negative then -rank.val else rank.val)

/-- Equality of numbers: NaN equals nothing, and the two zeros are equal. -/
def same (x y : Double) : Bool :=
  match x.position, y.position with
  | some p, some q => p == q
  | _, _ => false

def wholePart (rank : Nat) : Nat :=
  if 0 ≤ exponent rank then significand rank * Nat.pow 2 (exponent rank).toNat
  else significand rank / Nat.pow 2 (-exponent rank).toNat

def isWhole (rank : Nat) : Bool :=
  0 ≤ exponent rank || significand rank % Nat.pow 2 (-exponent rank).toNat == 0

/-- The value cut to a whole number toward zero; NaN counts as zero. -/
def truncate : Double → Int
  | nan => 0
  | number negative rank => if negative then -wholePart rank.val else wholePart rank.val

end Double
end MediaViews
