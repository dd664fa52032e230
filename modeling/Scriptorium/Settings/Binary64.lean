/-!
# 64-bit floats

A float is not a number, infinite, or finite. The finite floats without their sign are counted from
zero upwards, so the `n`-th of them is the `n`-th smallest: their magnitudes are equal steps apart
within a binade and twice as far apart in the next one.

Decimals are read by rounding to the nearest float, a tie going to the even magnitude. They are
written with as few digits as read back to the same float, and among those with the nearest ones.
All of it is exact arithmetic on natural numbers.
-/

namespace Scriptorium.Settings

abbrev magnitudeCount : Nat := 2047 * Nat.pow 2 52

/-- A 64-bit float. All values that are not a number count as one. -/
inductive Binary64 where
  | nan
  | infinite (negative : Bool)
  | finite (negative : Bool) (magnitude : Fin magnitudeCount)
deriving DecidableEq, Repr, Inhabited

namespace Binary64

/-- The float of a bit pattern: a sign bit above a magnitude. -/
def ofBits (bits : Nat) : Binary64 :=
  let negative := bits / Nat.pow 2 63 % 2 = 1
  let magnitude := bits % Nat.pow 2 63
  if h : magnitude < magnitudeCount then .finite negative ⟨magnitude, h⟩
  else if magnitude = magnitudeCount then .infinite negative
  else .nan

/-- The bit pattern of a float, unless it is not a number. -/
def toBits? : Binary64 → Option Nat
  | .nan => none
  | .infinite negative => some ((if negative then Nat.pow 2 63 else 0) + magnitudeCount)
  | .finite negative magnitude => some ((if negative then Nat.pow 2 63 else 0) + magnitude)

/-! ### Rounding -/

/-- The binade of a magnitude, counted from the one that holds zero. -/
def binade (magnitude : Nat) : Nat :=
  magnitude / Nat.pow 2 52 - 1

/-- A magnitude as a multiple of the least positive one, which is two to the power -1074. -/
def scaled (magnitude : Nat) : Nat :=
  (magnitude - binade magnitude * Nat.pow 2 52) * Nat.pow 2 (binade magnitude)

/-- A quotient rounded to the nearest integer, a tie to the even one. -/
def roundQuotient (num den : Nat) : Nat :=
  let floor := num / den
  let twice := 2 * (num % den)
  if twice < den then floor
  else if twice = den then floor + floor % 2
  else floor + 1

/-- The magnitude nearest to a quotient of multiples of the least positive one. It may be too large
to be finite. -/
def roundScaled (num den : Nat) : Nat :=
  let binade := Nat.log2 (num / den) - 52
  binade * Nat.pow 2 52 + roundQuotient num (den * Nat.pow 2 binade)

/-- The magnitude nearest to `digits * 10 ^ exponent`. Decimals far outside the range of floats are
told by their exponents alone. -/
def roundDecimal (digits : Nat) (exponent : Int) : Nat :=
  if digits = 0 ∨ exponent < -(400 + Nat.log2 digits : Nat) then 0
  else if 400 < exponent then magnitudeCount
  else if 0 ≤ exponent then roundScaled (digits * Nat.pow 10 exponent.toNat * Nat.pow 2 1074) 1
  else roundScaled (digits * Nat.pow 2 1074) (Nat.pow 10 (-exponent).toNat)

/-- The float nearest to a decimal, unless it is too large to be finite. -/
def ofDecimal? (negative : Bool) (digits : Nat) (exponent : Int) : Option Binary64 :=
  let magnitude := roundDecimal digits exponent
  if h : magnitude < magnitudeCount then some (.finite negative ⟨magnitude, h⟩) else none

/-! ### Shortest decimals -/

/-- The magnitude as a quotient of whole numbers counted in units of `10 ^ exponent`. -/
def inUnits (magnitude : Nat) (exponent : Int) : Nat × Nat :=
  if 0 ≤ exponent then (scaled magnitude, Nat.pow 2 1074 * Nat.pow 10 exponent.toNat)
  else (scaled magnitude * Nat.pow 10 (-exponent).toNat, Nat.pow 2 1074)

/-- The multiple of `10 ^ exponent` that is nearest to a magnitude among those that read back to
it. Only the two neighbours of the magnitude can be that. -/
def nearestMultiple? (magnitude : Nat) (exponent : Int) : Option Nat :=
  let (num, den) := inUnits magnitude exponent
  let below := num / den
  let readsBack (digits : Nat) : Bool := roundDecimal digits exponent == magnitude
  let (near, far) := if 2 * (num % den) < den then (below, below + 1) else (below + 1, below)
  if readsBack near then some near else if readsBack far then some far else none

def searchDecimal (magnitude : Nat) (exponent : Int) : Nat → Option (Nat × Int)
  | 0 => none
  | steps + 1 =>
      match nearestMultiple? magnitude exponent with
      | some digits => some (digits, exponent)
      | none => searchDecimal magnitude (exponent - 1) steps

/-- An exponent of ten whose power lies above a magnitude, by less than a factor of a hundred. -/
def exponentAbove (magnitude : Nat) : Int :=
  ((Nat.log2 (scaled magnitude) : Int) - 1074) * 30103 / 100000 + 2

/-- The shortest decimal of a magnitude as digits and exponent. Twenty steps are more than the
seventeen digits that any float needs; the exact decimal closes the search. -/
def shortestDecimal (magnitude : Nat) : Nat × Int :=
  if magnitude = 0 then (0, 0)
  else
    (searchDecimal magnitude (exponentAbove magnitude) 20).getD
      (scaled magnitude * Nat.pow 5 1074, -1074)

end Binary64

end Scriptorium.Settings
