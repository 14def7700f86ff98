/-
The shortest decimal of a binary number.

A number of a binary format stands for every real that rounds to it, an interval around its value.
Its shortest decimal is, among the decimals in that interval, one with the fewest digits, and among
those the nearest to the value; of two equally near the larger. For each count of digits only the
two neighbours of the value on the grid of decimals with that many digits can be nearest, so the
search tries one digit, two digits and so on, all in natural numbers.
-/
import Provenance.Number.Binary

set_option autoImplicit false

namespace Provenance.Number

/-- A decimal number: some digits read as an integer, times a power of ten. -/
structure Decimal where
  digits : Nat
  exponent : Int
deriving DecidableEq, Repr

/-- The reals that round to a number, as fractions over one denominator. -/
structure Rounding where
  low : Nat
  value : Nat
  high : Nat
  den : Nat
  /-- Whether the two ends round to the number as well. -/
  closed : Bool

namespace Rounding

/-- The interval of a finite magnitude: half a step to each side, but half of that below the first
number of a power of two, where the steps below are half as long. The ends belong to an even one. -/
def ofMagnitude (f : BinaryFormat) (magnitude : Nat) : Rounding :=
  let (m, power) := Binary.mantissa f magnitude
  let unit := Nat.pow 2 power
  let binade := Nat.pow 2 f.fractionBits
  let first := magnitude % binade = 0 && binade ≤ magnitude
  { low := (4 * m - if first then 1 else 2) * unit
    value := 4 * m * unit
    high := (4 * m + 2) * unit
    den := 4 * Nat.pow 2 f.finestPower
    closed := m % 2 = 0 }

/-- The interval seen in units of a power of ten. -/
def inUnits (r : Rounding) : Int → Rounding
  | .ofNat p => { r with den := r.den * Nat.pow 10 p }
  | .negSucc p =>
    let scale := Nat.pow 10 (p + 1)
    { r with low := r.low * scale, value := r.value * scale, high := r.high * scale }

/-- Whether an integer lies in the interval. -/
def holds (r : Rounding) (n : Nat) : Bool :=
  if r.closed then r.low ≤ n * r.den && n * r.den ≤ r.high
  else r.low < n * r.den && n * r.den < r.high

/-- The integer in the interval that is nearest to the value, the larger of two equally near. -/
def nearestInteger? (r : Rounding) : Option Nat :=
  let below := r.value / r.den
  let above := below + 1
  if r.holds below && (2 * r.value < (2 * below + 1) * r.den || !r.holds above) then some below
  else if r.holds above then some above
  else none

/-- No positive number of a format in use is smaller than one tenth to this power. -/
def tenthsOfSmallest : Nat := 330

/-- The power of ten of the first digit of the value. -/
def leadingPower (r : Rounding) : Int :=
  let scaled := r.value * Nat.pow 10 tenthsOfSmallest / r.den
  ((Nat.toDigits 10 scaled).length : Int) - 1 - tenthsOfSmallest

/-- The first decimal of the interval with at least a given count of digits; the fuel bounds how
many further counts are tried. -/
def search (r : Rounding) (leading : Int) (count : Nat) : Nat → Decimal
  | 0 => ⟨r.value, 0⟩
  | fuel + 1 =>
    let power := leading - count + 1
    match (r.inUnits power).nearestInteger? with
    | some n => ⟨n, power⟩
    | none => search r leading (count + 1) fuel

end Rounding

/-- Moves the zeros at the end of the digits into the exponent. -/
def Decimal.trim (d : Decimal) : Decimal :=
  let kept := (Nat.toDigits 10 d.digits).reverse.dropWhile (· = '0')
  let zeros := (Nat.toDigits 10 d.digits).length - kept.length
  if d.digits = 0 then ⟨0, 0⟩ else ⟨d.digits / Nat.pow 10 zeros, d.exponent + zeros⟩

/-- The shortest decimal of a finite magnitude. Seventeen digits tell the numbers of 64 bits
apart, so the search ends before its bound. -/
def shortest (f : BinaryFormat) (magnitude : Nat) : Decimal :=
  if magnitude = 0 then ⟨0, 0⟩
  else
    let r := Rounding.ofMagnitude f magnitude
    (r.search r.leadingPower 1 20).trim

/-! ## Numbers as text -/

/-- How a decimal is written: where the point may stand in the digits before an exponent is used
instead, counted from the first digit, and what follows a whole number. -/
structure NumberStyle where
  positional : Int → Bool
  afterWhole : String

/-- Never an exponent, and nothing after a whole number. -/
def NumberStyle.plain : NumberStyle := ⟨fun _ => true, ""⟩

/-- From 0.00001 to below 10^16 without exponent, and a point with a zero after a whole number. -/
def NumberStyle.scientific : NumberStyle := ⟨fun point => -5 < point && point ≤ 16, ".0"⟩

def zeros (n : Nat) : String := String.ofList (List.replicate n '0')

/-- A decimal without its sign. -/
def Decimal.text (style : NumberStyle) (d : Decimal) : String :=
  let digits := Nat.repr d.digits
  let point : Int := digits.length + d.exponent
  if style.positional point then
    if 0 ≤ d.exponent then digits ++ zeros d.exponent.toNat ++ style.afterWhole
    else if 0 < point then
      String.ofList (digits.toList.take point.toNat) ++ "."
        ++ String.ofList (digits.toList.drop point.toNat)
    else "0." ++ zeros (-point).toNat ++ digits
  else
    let first := String.ofList (digits.toList.take 1)
    let rest := String.ofList (digits.toList.drop 1)
    let power := toString (point - 1)
    if digits.length = 1 then s!"{first}e{power}" else s!"{first}.{rest}e{power}"

/-- A number as text: its sign, also of zero, and its shortest decimal. -/
def Binary.text {f : BinaryFormat} (style : NumberStyle) (x : Binary f) : String :=
  (if x.negative then "-" else "")
    ++ if x.isInfinite then "inf" else (shortest f x.magnitude).text style

end Provenance.Number
