/-
# ManagedCode.Decimal.Shortest — the shortest decimal that reads back as a floating point datum.

A finite datum is `significand · 2 ^ exponent`.  The reals that round to it form an interval around it,
ends included exactly if the significand is even; the part below the datum is half as wide where the
spacing of the format halves.  Every power of ten spans a grid of decimals.  The shortest decimal lies on
the coarsest grid that meets the interval, and there it is the point nearest to the datum; of two points
that are equally near, the larger.  If a grid meets the interval at all, one of the datum's two
neighbours on it does, so only those two are tried.  All arithmetic is exact.

The text of the decimal is positional, whatever its magnitude: no exponent is ever written, and a whole
number has no decimal point.
-/

namespace ManagedCode

/-! ## § Binary formats -/

/-- A binary interchange format: a sign bit, exponent bits and fraction bits, highest first. -/
structure BinaryFormat where
  exponentBits : Nat
  fractionBits : Nat
  deriving DecidableEq

/-- The 32-bit format. -/
def BinaryFormat.binary32 : BinaryFormat := ⟨8, 23⟩

/-- The 64-bit format. -/
def BinaryFormat.binary64 : BinaryFormat := ⟨11, 52⟩

/-- What a bit pattern stands for. -/
inductive Datum
  | nan
  | infinity (negative : Bool)
  | zero (negative : Bool)
  /-- The value `significand · 2 ^ exponent`; `narrow` if the datum below is nearer than the one
  above. -/
  | finite (negative : Bool) (significand : Nat) (exponent : Int) (narrow : Bool)
  deriving DecidableEq

/-- **`decode`** — the datum of a bit pattern. -/
def BinaryFormat.decode (format : BinaryFormat) (bits : Nat) : Datum :=
  let fraction := bits % Nat.pow 2 format.fractionBits
  let biased := bits / Nat.pow 2 format.fractionBits % Nat.pow 2 format.exponentBits
  let negative := bits / Nat.pow 2 (format.fractionBits + format.exponentBits) % 2 == 1
  let lowest : Int := 2 - Nat.pow 2 (format.exponentBits - 1) - format.fractionBits
  if biased + 1 == Nat.pow 2 format.exponentBits then
    if fraction == 0 then .infinity negative else .nan
  else if biased == 0 then
    if fraction == 0 then .zero negative else .finite negative fraction lowest false
  else
    .finite negative (Nat.pow 2 format.fractionBits + fraction) (lowest + (biased - 1))
      (fraction == 0 && biased != 1)

/-! ## § The coarsest grid that meets the interval -/

/-- The decimal `digits · 10 ^ exponent`. -/
structure Decimal where
  digits : Nat
  exponent : Int
  deriving DecidableEq

/-- The interval of reals that round to a datum, in quarters of the spacing above it. -/
structure RoundingInterval where
  lower : Nat
  value : Nat
  upper : Nat
  /-- The ends belong to the interval. -/
  closed : Bool
  /-- The unit is this power of two. -/
  exponent : Int
  deriving DecidableEq

namespace RoundingInterval

/-- The interval of a positive datum. -/
def around (significand : Nat) (exponent : Int) (narrow : Bool) : RoundingInterval :=
  { lower := 4 * significand - if narrow then 1 else 2
    value := 4 * significand
    upper := 4 * significand + 2
    closed := significand % 2 == 0
    exponent := exponent - 2 }

/-- Numerator and denominator of the interval's unit, measured in steps of a decimal grid. -/
def unitInSteps (interval : RoundingInterval) (grid : Int) : Nat × Nat :=
  (Nat.pow 2 interval.exponent.toNat * Nat.pow 10 (-grid).toNat,
    Nat.pow 2 (-interval.exponent).toNat * Nat.pow 10 grid.toNat)

/-- **`nearestOn?`** — the point of the grid of multiples of `10 ^ grid` that lies in the interval and is
nearest to the datum; the larger one if two are equally near. -/
def nearestOn? (interval : RoundingInterval) (grid : Int) : Option Nat :=
  let (numerator, denominator) := interval.unitInSteps grid
  let below := interval.value * numerator / denominator
  let precedes (a b : Nat) : Bool := if interval.closed then a ≤ b else a < b
  let lowerIn := precedes (interval.lower * numerator) (below * denominator)
  let upperIn := precedes ((below + 1) * denominator) (interval.upper * numerator)
  let isLowerNearer := 2 * (interval.value * numerator - below * denominator) < denominator
  match lowerIn, upperIn with
  | true, true => some (if isLowerNearer then below else below + 1)
  | true, false => some below
  | false, true => some (below + 1)
  | false, false => none

/-- The first hit on the grids `grid`, `grid - 1`, … -/
def coarsest (interval : RoundingInterval) : (fuel : Nat) → (grid : Int) → Decimal
  | 0, grid => ⟨0, grid⟩
  | fuel + 1, grid =>
    match interval.nearestOn? grid with
    | some digits => ⟨digits, grid⟩
    | none => interval.coarsest fuel (grid - 1)

/-- An upper bound on the decimal places before the point. -/
def wholePlaces (interval : RoundingInterval) : Nat :=
  (Nat.toDigits 10 (interval.upper * Nat.pow 2 interval.exponent.toNat)).length

/-- **`shortest`** — the shortest decimal in the interval.  The search starts on a grid coarser than the
interval's upper end and needs at most one grid per binary place below the point. -/
def shortest (interval : RoundingInterval) : Decimal :=
  interval.coarsest (interval.wholePlaces + (-interval.exponent).toNat + 2) interval.wholePlaces

end RoundingInterval

/-! ## § Text -/

/-- The positional text of a decimal. -/
def Decimal.positional (d : Decimal) : String :=
  let digits := Nat.toDigits 10 d.digits
  let places := (-d.exponent).toNat
  if places == 0 then String.ofList (digits ++ List.replicate d.exponent.toNat '0')
  else
    let padded := List.replicate (places + 1 - digits.length) '0' ++ digits
    let whole := padded.length - places
    String.ofList (padded.take whole ++ '.' :: padded.drop whole)

/-- **`Datum.text`** — the sign of zero is kept; that of a NaN is not. -/
def Datum.text : Datum → String
  | .nan => "NaN"
  | .infinity negative => if negative then "-inf" else "inf"
  | .zero negative => if negative then "-0" else "0"
  | .finite negative significand exponent narrow =>
    let magnitude := (RoundingInterval.around significand exponent narrow).shortest.positional
    if negative then "-" ++ magnitude else magnitude

/-- The text of the datum with the given bits. -/
def BinaryFormat.text (format : BinaryFormat) (bits : Nat) : String := (format.decode bits).text

end ManagedCode
