import Lisplet.Double.Decimal

/-! # Fixed decimal places

`Double.toFixed` writes a double with a given number of decimal places.  The exact value
is rounded, a tie going to the even digit. -/

namespace Lisplet.Double

/-- `num / den` with exactly `places` decimal places. -/
def fixedPlaces (num den places : Nat) : String :=
  let ds := Decimal.digitText (roundDiv (num * Decimal.tenPow places) den)
  if places = 0 then String.ofList ds
  else
    let padded := List.replicate (places + 1 - ds.length) '0' ++ ds
    let cut := padded.length - places
    String.ofList (padded.take cut ++ '.' :: padded.drop cut)

/-- A double with `places` decimal places.  The sign is written whenever the double has
    one, also in front of zero. -/
def toFixed (x : Float) (places : Nat) : String :=
  match reading x with
  | .nan => "NaN"
  | .infinite negative => if negative then "-inf" else "inf"
  | .finite negative mantissa exponent =>
    let (num, den) := scale mantissa 1 (-exponent)
    (if negative then "-" else "") ++ fixedPlaces num den places

end Lisplet.Double
