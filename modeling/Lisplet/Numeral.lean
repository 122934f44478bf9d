import Lisplet.Double.Decimal

/-! # Numerals

Two ways to write a number.

A *numeral* is what stands for a number in source text: an optional sign, one or more
groups of ASCII digits with single hyphens between them, and optionally a dot with more
digits, so that `1-000-000` is a million.

A *plain number* has no groups but is freer otherwise: digits on at least one side of a
dot, an exponent, or the name of infinity or NaN.  `numeral?` reads the first by dropping
the hyphens and reading the rest as the second. -/

namespace Lisplet.Numeral

/-- Whether the rest of a numeral may follow a digit of its whole part. -/
def afterDigit : List Char → Bool
  | [] => true
  | '-' :: c :: rest => c.isDigit && afterDigit rest
  | '.' :: c :: rest => c.isDigit && rest.all Char.isDigit
  | c :: rest => c.isDigit && afterDigit rest

/-- Separates a leading sign; the flag says whether it is a minus. -/
def takeSign : List Char → Bool × List Char
  | '+' :: rest => (false, rest)
  | '-' :: rest => (true, rest)
  | cs => (false, cs)

/-- Whether the characters are a numeral. -/
def isNumeral (cs : List Char) : Bool :=
  match (takeSign cs).2 with
  | c :: rest => c.isDigit && afterDigit rest
  | [] => false

/-- Drops every hyphen but a leading sign. -/
def normalize : List Char → List Char
  | '+' :: rest => '+' :: rest.filter (· != '-')
  | '-' :: rest => '-' :: rest.filter (· != '-')
  | cs => cs.filter (· != '-')

/-- The number that a run of digits stands for, put together from halves of halves, `depth`
    times over. -/
def ofHalves : Nat → List Char → Nat
  | 0, ds => Nat.ofDigitChars 10 ds 0
  | depth + 1, ds =>
    let rest := ds.drop (ds.length / 2)
    ofHalves depth (ds.take (ds.length / 2)) * Decimal.tenPow rest.length + ofHalves depth rest

/-- A run of digits may be read in two parts. -/
theorem ofDigitChars_cut (k : Nat) (ds : List Char) :
    Nat.ofDigitChars 10 (ds.take k) 0 * Decimal.tenPow (ds.drop k).length +
      Nat.ofDigitChars 10 (ds.drop k) 0 = Nat.ofDigitChars 10 ds 0 := by
  have joined : Nat.ofDigitChars 10 (ds.take k ++ ds.drop k) 0 = _ := Nat.ofDigitChars_append 0
  rw [List.take_append_drop] at joined
  rw [joined, eq_comm, Nat.ofDigitChars_eq_ofDigitChars_zero, Nat.mul_comm]
  rfl

theorem ofHalves_eq (depth : Nat) (ds : List Char) :
    ofHalves depth ds = Nat.ofDigitChars 10 ds 0 := by
  induction depth generalizing ds with
  | zero => rfl
  | succ depth ih => simp only [ofHalves, ih, ofDigitChars_cut]

/-- The number that a run of digits stands for.  Long runs are halved, which keeps the
    numbers to multiply small. -/
def ofDigits (ds : List Char) : Nat := ofHalves (ds.length / 64).log2 ds

theorem ofDigits_eq (ds : List Char) : ofDigits ds = Nat.ofDigitChars 10 ds 0 :=
  ofHalves_eq _ ds

/-- An exponent that has grown to this size is taken as it stands. -/
def exponentReach : Nat := 65536

/-- The size of an exponent.  Digits are read until it has grown to `exponentReach`, and those
    that are left are passed over. -/
def exponentSize (ds : List Char) : Nat :=
  ds.foldl (fun n d => if n < exponentReach then 10 * n + (d.toNat - '0'.toNat) else n) 0

/-- The exponent that ends a plain number, zero if there is nothing left. -/
def exponent? : List Char → Option Int
  | [] => some 0
  | c :: rest =>
    if c.toLower = 'e' then
      let (negative, ds) := takeSign rest
      if ds.isEmpty || !ds.all Char.isDigit then none
      else some (if negative then -(exponentSize ds : Int) else exponentSize ds)
    else none

/-- Digits with an optional dot and exponent, at least one digit before the exponent. -/
def decimal? (cs : List Char) : Option Decimal :=
  let whole := cs.takeWhile Char.isDigit
  let rest := cs.dropWhile Char.isDigit
  let (fraction, rest) := match rest with
    | '.' :: rest => (rest.takeWhile Char.isDigit, rest.dropWhile Char.isDigit)
    | rest => ([], rest)
  if whole.isEmpty && fraction.isEmpty then none
  else (exponent? rest).map fun e => ⟨ofDigits (whole ++ fraction), e - fraction.length⟩

/-- The double that a plain number stands for. -/
def plain? (cs : List Char) : Option Float :=
  let (negative, rest) := takeSign cs
  let name := String.ofList (rest.map Char.toLower)
  if name = "inf" ∨ name = "infinity" then
    some (Double.ofMagnitude negative Double.infinityMagnitude)
  else if name = "nan" then some (0.0 / 0.0)
  else (decimal? rest).map (·.toDouble negative)

end Lisplet.Numeral
