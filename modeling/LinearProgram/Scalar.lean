/-!
The numbers of a model: coefficients, bounds and data. Everything above this module is stated for
any `Scalar`, so the same definitions run on machine floats and are reasoned about on exact
rationals.
-/

namespace LinearProgram

class Scalar (κ : Type) extends Zero κ, One κ, Neg κ, Add κ, Sub κ, Mul κ, Div κ, LT κ, LE κ,
    BEq κ where
  decLt : DecidableLT κ
  decLe : DecidableLE κ
  ofInt : Int → κ
  isWhole : κ → Bool
  text : κ → String

namespace Scalar

variable {κ : Type} [Scalar κ]

instance : DecidableLT κ := decLt

instance : DecidableLE κ := decLe

def ofNat (n : Nat) : κ := ofInt n

/-- A number that differs from itself is no number. -/
def isNumber (v : κ) : Bool := v == v

/-- The smaller of two, the second of two equals; one that is no number gives way to the other. -/
def least (u v : κ) : κ := if isNumber v then (if u < v then u else v) else u

/-- The greater of two, the second of two equals; one that is no number gives way to the other. -/
def greatest (u v : κ) : κ := if isNumber v then (if v < u then u else v) else u

/-- The magnitude; adding to zero drops the sign of a negative zero. -/
def abs (v : κ) : κ := if v < 0 then -v else 0 + v

end Scalar

end LinearProgram
