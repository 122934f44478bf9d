import Lisplet.Double.Basic

/-! # Decimals and doubles

A `Decimal` is a whole number times a power of ten.  `Decimal.toDouble` is the closest
double, and `Decimal.shortest` is the decimal with the fewest digits that leads back to
a given double. -/

namespace Lisplet

/-- The number `digits * 10 ^ exponent`. -/
structure Decimal where
  digits : Nat
  exponent : Int
deriving DecidableEq, Repr

namespace Decimal

/-- The powers of ten. -/
def tenPow (n : Nat) : Nat := Nat.pow 10 n

/-- Beyond this power of ten every double is infinite or zero. -/
def reach : Nat := 400

/-- The double closest to `± d`.  Exponents that lead beyond all doubles are settled
    without computing the power. -/
def toDouble (negative : Bool) (d : Decimal) : Float :=
  if d.digits = 0 then Double.ofMagnitude negative 0
  else if (reach : Int) < d.exponent then Double.ofMagnitude negative Double.infinityMagnitude
  else if d.exponent < -((reach + d.digits.log2 + 1 : Nat) : Int) then
    Double.ofMagnitude negative 0
  else Double.nearest negative (d.digits * tenPow d.exponent.toNat) (tenPow (-d.exponent).toNat)

/-- The decimal that equals `mantissa * 2 ^ exponent`. -/
def exact (mantissa : Nat) (exponent : Int) : Decimal :=
  if 0 ≤ exponent then ⟨mantissa * Double.twoPow exponent.toNat, 0⟩
  else ⟨mantissa * Nat.pow 5 (-exponent).toNat, exponent⟩

/-- The two multiples of `10 ^ k` next to `num / den`, the nearer one first and the upper
    one first when both are equally near. -/
def neighbours (num den : Nat) (k : Int) : List Decimal :=
  let n := num * tenPow (-k).toNat
  let d := den * tenPow k.toNat
  let lower := n / d
  if 2 * (n % d) < d then [⟨lower, k⟩, ⟨lower + 1, k⟩] else [⟨lower + 1, k⟩, ⟨lower, k⟩]

/-- A power of ten that lies above `num / den`, and above it by little. -/
def startPower (num den : Nat) : Int :=
  ((num.log2 : Int) - den.log2 + 1) * 30103 / 100000 + 2

/-- The decimal with the fewest digits that leads back to `mantissa * 2 ^ exponent`, and
    of those the nearest.

    Grids of multiples of a power of ten are tried from coarse to fine.  On each only the
    two neighbours of the number can be nearest, and the first hit has no trailing zero
    because the next coarser grid had none. -/
def shortest (mantissa : Nat) (exponent : Int) : Decimal :=
  let (num, den) := Double.scale mantissa 1 (-exponent)
  let target := Double.nearest false num den
  let grids := (List.range 22).map fun (i : Nat) => startPower num den - i
  let candidates := grids.flatMap (neighbours num den)
  (candidates.find? fun d => d.toDouble false == target).getD (exact mantissa exponent)

/-- The decimal digits of a natural number. -/
def digitText (n : Nat) : List Char := Nat.toDigits 10 n

/-- The decimal written out without an exponent. -/
def positional (d : Decimal) : String :=
  let ds := digitText d.digits
  if 0 ≤ d.exponent then String.ofList (ds ++ List.replicate d.exponent.toNat '0')
  else
    let places := (-d.exponent).toNat
    let padded := List.replicate (places + 1 - ds.length) '0' ++ ds
    let cut := padded.length - places
    String.ofList (padded.take cut ++ '.' :: padded.drop cut)

end Decimal
end Lisplet
