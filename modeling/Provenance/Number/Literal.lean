/-
Reading decimal literals.

A literal is an optional minus sign, the digits before the point, perhaps digits after it, and
perhaps an exponent. Without point and exponent it is an integer as long as it fits into 64 bits.
Everything else is a number of the 64-bit binary format, read in two roundings: as many digits as
fit into 64 bits are taken as an integer and rounded, and the result is multiplied or divided once
by the nearest number to a power of ten. Digits that do not fit are dropped, those before the point
with the power of ten they stand for. A literal too large for the format has no value.
-/
import Provenance.Number.Binary

set_option autoImplicit false

namespace Provenance.Number

/-- A decimal literal as it is written. -/
structure Literal where
  negative : Bool
  whole : List Nat
  fraction : Option (List Nat)
  exponent : Option Int
deriving DecidableEq, Repr

/-- The value of a literal. -/
inductive Value where
  | integer (i : Int)
  | real (x : Binary binary64)
deriving DecidableEq

/-- The largest integer that 64 bits hold. -/
def maxWord : Nat := Nat.pow 2 64 - 1

/-- The largest power of ten that the 64-bit format holds. -/
def maxTenPower : Nat := 308

/-- The digits read so far: an integer of 64 bits, and the power of ten it counts. -/
structure Significand where
  digits : Nat
  exponent : Int

namespace Significand

/-- Whether one more digit fits. -/
def takes (s : Significand) (digit : Nat) : Bool := s.digits * 10 + digit ≤ maxWord

/-- Reads digits before the point; after the first that does not fit, each counts a power of ten. -/
def readWhole (s : Significand) : List Nat → Significand
  | [] => s
  | d :: rest =>
    if s.takes d then readWhole ⟨s.digits * 10 + d, s.exponent⟩ rest
    else ⟨s.digits, s.exponent + (rest.length + 1)⟩

/-- Reads digits after the point, up to the first that does not fit. -/
def readFraction (s : Significand) : List Nat → Significand
  | [] => s
  | d :: rest =>
    if s.takes d then readFraction ⟨s.digits * 10 + d, s.exponent - 1⟩ rest else s

end Significand

/-- The number nearest to a power of ten. -/
def tenPower (n : Nat) : Nat := Binary.nearest binary64 ⟨Nat.pow 10 n, 1⟩

/-- A magnitude times the number nearest to a power of ten. -/
def timesTenPower (magnitude n : Nat) : Nat :=
  Binary.nearest binary64
    ((Binary.fraction binary64 magnitude).mul (Binary.fraction binary64 (tenPower n)))

/-- A magnitude divided by the number nearest to a power of ten. -/
def overTenPower (magnitude n : Nat) : Nat :=
  Binary.nearest binary64
    ((Binary.fraction binary64 magnitude).div (Binary.fraction binary64 (tenPower n)))

/-- A magnitude divided by a power of ten, in steps of the largest power while it is larger. -/
def shrink (magnitude n : Nat) : Nat :=
  if n ≤ maxTenPower then overTenPower magnitude n
  else if magnitude = 0 then 0
  else shrink (overTenPower magnitude maxTenPower) (n - maxTenPower)
termination_by n
decreasing_by simp [maxTenPower] at *; omega

/-- The magnitude of some digits times a power of ten, unless it is infinite. -/
def Significand.magnitude? (s : Significand) : Option Nat :=
  let magnitude := Binary.nearest binary64 ⟨s.digits, 1⟩
  match s.exponent with
  | .ofNat n =>
    if n ≤ maxTenPower then
      let scaled := timesTenPower magnitude n
      if scaled < binary64.infinity then some scaled else none
    else if magnitude = 0 then some 0 else none
  | .negSucc n => some (shrink magnitude (n + 1))

/-- The value of a literal, none if it is too large. -/
def Literal.value? (l : Literal) : Option Value :=
  let whole := Significand.readWhole ⟨0, 0⟩ l.whole
  if l.fraction.isNone && l.exponent.isNone && whole.exponent = 0
      && !(l.negative && (whole.digits = 0 || Nat.pow 2 63 < whole.digits)) then
    some (.integer (if l.negative then -whole.digits else whole.digits))
  else
    let s := whole.readFraction (l.fraction.getD [])
    let s := ⟨s.digits, s.exponent + l.exponent.getD 0⟩
    (Significand.magnitude? s).map fun m => .real ⟨l.negative, m⟩

end Provenance.Number
