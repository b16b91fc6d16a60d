import LinearProgram.Scalar
import LinearProgram.Decimal.Shortest

/-!
Machine floats as scalars. A finite float is read exactly from its bits; its text is the shortest
decimal that reads back, without an exponent.
-/

namespace LinearProgram

/-- A float taken apart: its magnitude is `mantissa · 2^exponent` when it is finite. -/
structure Double where
  negative : Bool
  mantissa : Nat
  exponent : Int
  special : Bool
  deriving DecidableEq

namespace Double

/-- The mantissa of a power of two. -/
def leading : Nat := Nat.pow 2 52

/-- One bit of sign, eleven of exponent and 52 of fraction; the least exponent goes without the
leading bit, and the greatest is kept for infinities and NaN. -/
def ofBits (b : UInt64) : Double :=
  let biased := b.toNat / leading % 2048
  let fraction := b.toNat % leading
  { negative := 2048 ≤ b.toNat / leading
    mantissa := if biased = 0 then fraction else fraction + leading
    exponent := (max biased 1 : Nat) - 1075
    special := biased = 2047 }

/-- At a power of two above the least one the floats below lie half as far apart. -/
def narrow (d : Double) : Bool := d.mantissa = leading ∧ -1074 < d.exponent

def isWhole (d : Double) : Bool :=
  !d.special && d.mantissa % Nat.pow 2 (-d.exponent).toNat = 0

def magnitude (d : Double) : String :=
  if d.special then "inf"
  else if d.mantissa = 0 then "0"
  else (Decimal.shortest d.mantissa d.exponent d.narrow).positional

def text (d : Double) : String :=
  if d.special ∧ d.mantissa ≠ leading then "NaN"
  else if d.negative then "-" ++ d.magnitude
  else d.magnitude

end Double

/-- The float nearest to an integer. -/
def Float.ofInteger (i : Int) : Float :=
  if i < 0 then -Float.ofScientific i.natAbs false 0 else Float.ofScientific i.natAbs false 0

instance : Scalar Float where
  zero := 0
  one := 1
  decLt := inferInstance
  decLe := inferInstance
  ofInt := Float.ofInteger
  isWhole v := (Double.ofBits v.toBits).isWhole
  text v := (Double.ofBits v.toBits).text

end LinearProgram
