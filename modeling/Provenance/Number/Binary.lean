/-
Binary floating-point numbers, exactly.

A number of a binary format is a sign and a magnitude. The magnitude is the bit pattern without the
sign, read as a natural number, so that it counts the numbers of the format from zero upwards and
its last step is infinity. What a magnitude stands for is an exact fraction of natural numbers, and
rounding takes a fraction to the nearest magnitude, a tie to the even one. No arithmetic of the
machine is used. Powers of natural numbers are `Nat.pow`, which no instance of the operator can
change.
-/
set_option autoImplicit false

namespace Provenance.Number

/-- A binary format: the width of its fraction and of its exponent. -/
structure BinaryFormat where
  fractionBits : Nat
  exponentBits : Nat

/-- The format of 64 bits. -/
def binary64 : BinaryFormat := ⟨52, 11⟩

/-- The format of 32 bits. -/
def binary32 : BinaryFormat := ⟨23, 8⟩

namespace BinaryFormat

/-- The magnitude of infinity: all bits of the exponent set. -/
def infinity (f : BinaryFormat) : Nat := (Nat.pow 2 f.exponentBits - 1) * Nat.pow 2 f.fractionBits

/-- The finest unit of the format is one half to this power. -/
def finestPower (f : BinaryFormat) : Nat :=
  Nat.pow 2 (f.exponentBits - 1) - 2 + f.fractionBits

end BinaryFormat

/-- A number of a binary format, not a number excluded. -/
structure Binary (f : BinaryFormat) where
  negative : Bool
  /-- How many steps the number lies above zero, its sign apart. -/
  magnitude : Nat
deriving DecidableEq, Inhabited

/-- A fraction of natural numbers. -/
structure Fraction where
  num : Nat
  den : Nat

namespace Fraction

def mul (x y : Fraction) : Fraction := ⟨x.num * y.num, x.den * y.den⟩

def div (x y : Fraction) : Fraction := ⟨x.num * y.den, x.den * y.num⟩

end Fraction

namespace Binary

variable {f : BinaryFormat}

def isInfinite (x : Binary f) : Bool := f.infinity ≤ x.magnitude

/-- The integer that a finite magnitude holds, and how many finest units make its unit, as a power
of two. -/
def mantissa (f : BinaryFormat) (magnitude : Nat) : Nat × Nat :=
  let exponent := magnitude / Nat.pow 2 f.fractionBits
  let fraction := magnitude % Nat.pow 2 f.fractionBits
  if exponent = 0 then (fraction, 0) else (Nat.pow 2 f.fractionBits + fraction, exponent - 1)

/-- What a finite magnitude stands for. -/
def fraction (f : BinaryFormat) (magnitude : Nat) : Fraction :=
  let (m, power) := mantissa f magnitude
  ⟨m * Nat.pow 2 power, Nat.pow 2 f.finestPower⟩

/-- The quotient, a remainder of one half and more rounded up, a tie to the even neighbour. -/
def divideToEven (num den : Nat) : Nat :=
  let q := num / den
  let r := num % den
  if 2 * r < den then q
  else if den < 2 * r then q + 1
  else if q % 2 = 0 then q else q + 1

/-- How far the unit lies above the finest unit for a number that is this many finest units large:
a number with one bit more than the fraction holds keeps the finest unit, each further bit doubles
it. -/
def unitPower (f : BinaryFormat) (units : Nat) : Nat := units.log2 - f.fractionBits

/-- The magnitude nearest to a fraction. -/
def nearest (f : BinaryFormat) (x : Fraction) : Nat :=
  let num := x.num * Nat.pow 2 f.finestPower
  let power := unitPower f (num / x.den)
  min f.infinity
    (power * Nat.pow 2 f.fractionBits + divideToEven num (x.den * Nat.pow 2 power))

/-- The number nearest to an integer. -/
def ofInt (f : BinaryFormat) (i : Int) : Binary f :=
  ⟨i < 0, nearest f ⟨i.natAbs, 1⟩⟩

/-- The number of another format that is nearest to this one. -/
def convert (g : BinaryFormat) (x : Binary f) : Binary g :=
  ⟨x.negative, if x.isInfinite then g.infinity else nearest g (fraction f x.magnitude)⟩

end Binary

end Provenance.Number
