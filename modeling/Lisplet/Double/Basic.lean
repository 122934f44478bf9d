/-! # Doubles, exactly

A finite double is a whole number times a power of two.  `Double.reading` opens a
`Float` into that form and `Double.nearest` goes back: it takes a quotient of two
naturals to the closest double, a tie going to the even mantissa.  Everything between
the two (whole parts, remainders, conversions to integers) is arithmetic on `Nat`.

* `reading`      the sign, mantissa and exponent of a double
* `nearest`      the double closest to a quotient
* `toInt?`       the integer a whole double stands for, kept within 64 bits
* `remainder`    the exact remainder of a truncating division -/

namespace Lisplet.Double

/-- The powers of two. -/
def twoPow (n : Nat) : Nat := Nat.pow 2 n

/-- The weight of the sign among the bits of a double. -/
def signBit : Nat := twoPow 63

/-- The weight of the leading mantissa bit, which a double does not spell out. -/
def hiddenBit : Nat := twoPow 52

/-- What a double stands for; a finite one is `± mantissa * 2 ^ exponent`. -/
inductive Reading where
  | nan
  | infinite (negative : Bool)
  | finite (negative : Bool) (mantissa : Nat) (exponent : Int)
deriving DecidableEq, Repr

/-- Opens a double into sign, mantissa and exponent. -/
def reading (x : Float) : Reading :=
  let bits := x.toBits.toNat
  let negative := decide (signBit ≤ bits)
  let field : Nat := bits / hiddenBit % 2048
  let fraction := bits % hiddenBit
  if field = 2047 then
    if fraction = 0 then .infinite negative else .nan
  else if field = 0 then .finite negative fraction (-1074)
  else .finite negative (hiddenBit + fraction) ((field : Int) - 1075)

/-- The double with the given sign whose other 63 bits spell `magnitude`. -/
def ofMagnitude (negative : Bool) (magnitude : Nat) : Float :=
  Float.ofBits (UInt64.ofNat (if negative then signBit + magnitude else magnitude))

/-- The 63 bits that spell infinity; finite doubles lie below them. -/
def infinityMagnitude : Nat := 2047 * hiddenBit

/-- Positive infinity. -/
def infinity : Float := ofMagnitude false infinityMagnitude

/-- Negative zero, the neutral element of addition. -/
def negativeZero : Float := ofMagnitude true 0

/-- The quotient `num / den` as a whole number, a tie going to the even one. -/
def roundDiv (num den : Nat) : Nat :=
  let q := num / den
  let twice := 2 * (num % den)
  if den < twice ∨ (twice = den ∧ q % 2 = 1) then q + 1 else q

/-- Numerator and denominator of `num / den / 2 ^ e`. -/
def scale (num den : Nat) (e : Int) : Nat × Nat :=
  if 0 ≤ e then (num, den * twoPow e.toNat) else (num * twoPow (-e).toNat, den)

/-- The exponent of the last mantissa bit of doubles as large as `num / den`: the one
    that brings the quotient to 53 bits, but no less than the smallest there is. -/
def lastPlace (num den : Nat) : Int :=
  let e : Int := (num.log2 : Int) - den.log2 - 52
  let (n, d) := scale num den e
  max (if n < d * hiddenBit then e - 1 else e) (-1074)

/-- The double closest to `± num / den`, a tie going to the even mantissa.  Quotients
    beyond the largest double become infinite.

    A mantissa that rounds up to `2 ^ 53` carries into the exponent by itself, since
    the magnitude bits are a sum. -/
def nearest (negative : Bool) (num den : Nat) : Float :=
  if num = 0 then ofMagnitude negative 0
  else
    let e := lastPlace num den
    let (n, d) := scale num den e
    let magnitude := (e + 1074).toNat * hiddenBit + roundDiv n d
    ofMagnitude negative (min magnitude infinityMagnitude)

/-- Whether a double is neither infinite nor NaN. -/
def isFinite (x : Float) : Bool :=
  match reading x with
  | .finite .. => true
  | _ => false

/-- The integer `mantissa * 2 ^ exponent`, if it is one. -/
def wholeMagnitude? (mantissa : Nat) (exponent : Int) : Option Nat :=
  if 0 ≤ exponent then some (mantissa * twoPow exponent.toNat)
  else
    let unit := twoPow (-exponent).toNat
    if mantissa % unit = 0 then some (mantissa / unit) else none

/-- The integer a double stands for, if it is whole. -/
def whole? (x : Float) : Option Int :=
  match reading x with
  | .finite negative mantissa exponent =>
    (wholeMagnitude? mantissa exponent).map fun n => if negative then -(n : Int) else n
  | _ => none

/-- The smallest integer of 64 bits. -/
def minInt : Int := -(signBit : Int)

/-- The largest integer of 64 bits. -/
def maxInt : Int := (signBit : Int) - 1

/-- The integer a whole double stands for; beyond 64 bits it stops at the nearer limit. -/
def toInt? (x : Float) : Option Int :=
  (whole? x).map fun i => max minInt (min maxInt i)

/-- Rounds to a whole double.  `away negative rest unit` says whether a dropped part of
    `rest / unit` moves the result away from zero.  The sign is kept, so a result of
    zero may be negative. -/
def roundWith (away : Bool → Nat → Nat → Bool) (x : Float) : Float :=
  match reading x with
  | .finite negative mantissa exponent =>
    if 0 ≤ exponent then x
    else
      let unit := twoPow (-exponent).toNat
      let n := mantissa / unit
      nearest negative (if away negative (mantissa % unit) unit then n + 1 else n) 1
  | _ => x

/-- The largest whole double that is not above `x`. -/
def floor : Float → Float := roundWith fun negative rest _ => negative && rest != 0

/-- The smallest whole double that is not below `x`. -/
def ceil : Float → Float := roundWith fun negative rest _ => !negative && rest != 0

/-- The whole double closest to `x`, a half going away from zero. -/
def round : Float → Float := roundWith fun _ rest unit => unit ≤ 2 * rest

/-- What a division of `x` by `y` leaves when the quotient is cut to a whole number.  It
    is exact and has the sign of `x`. -/
def remainder (x y : Float) : Float :=
  match reading x, reading y with
  | .finite negative m e, .finite _ m' e' =>
    if m' = 0 then 0.0 / 0.0
    else
      let low := min e e'
      let rest := (m * twoPow (e - low).toNat) % (m' * twoPow (e' - low).toNat)
      if 0 ≤ low then nearest negative (rest * twoPow low.toNat) 1
      else nearest negative rest (twoPow (-low).toNat)
  | .finite .., .infinite _ => x
  | _, _ => 0.0 / 0.0

end Lisplet.Double
