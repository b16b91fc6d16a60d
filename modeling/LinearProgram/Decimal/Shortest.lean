/-!
The fewest digits that read back. A binary fraction `m · 2^q` stands for every real that rounds to
it; of the decimal grids `10^p`, the coarsest that has a point among these reals gives the digits.
-/

namespace LinearProgram.Decimal

/-- The decimal `digits · 10^exponent`. -/
structure Digits where
  digits : Nat
  exponent : Int
  deriving DecidableEq

/-- A positive number with the reals that round to it, as numerators over one denominator. The
ends belong to it when `closed`. -/
structure Span where
  low : Nat
  middle : Nat
  high : Nat
  unit : Nat
  closed : Bool

namespace Span

/-- The span of `m · 2^q`. Its lower neighbour is half as far away when `narrow`. -/
def ofBinary (m : Nat) (q : Int) (narrow : Bool) : Span :=
  let up := Nat.pow 2 (q - 2).toNat
  { low := (4 * m - if narrow then 1 else 2) * up
    middle := 4 * m * up
    high := (4 * m + 2) * up
    unit := Nat.pow 2 (2 - q).toNat
    closed := m % 2 = 0 }

/-- The same span counted in steps of `10^p`. -/
def inSteps (s : Span) (p : Int) : Span :=
  let up := Nat.pow 10 (-p).toNat
  { s with
    low := s.low * up
    middle := s.middle * up
    high := s.high * up
    unit := s.unit * Nat.pow 10 p.toNat }

def contains (s : Span) (n : Nat) : Bool :=
  if s.closed then s.low ≤ n * s.unit ∧ n * s.unit ≤ s.high
  else s.low < n * s.unit ∧ n * s.unit < s.high

/-- The whole number of the span nearest to its middle; of two equally near, the greater. -/
def nearest? (s : Span) : Option Nat :=
  let n := s.middle / s.unit
  match s.contains n, s.contains (n + 1) with
  | false, false => none
  | true, false => some n
  | false, true => some (n + 1)
  | true, true => if 2 * (s.middle % s.unit) < s.unit then some n else some (n + 1)

/-- The first hit on the grids `10^(p + k)`, …, `10^p`; the last of them holds the middle itself. -/
def search (s : Span) (p : Int) : Nat → Digits
  | 0 => let t := s.inSteps p; ⟨t.middle / t.unit, p⟩
  | k + 1 =>
    match (s.inSteps (p + (k + 1 : Nat))).nearest? with
    | some n => ⟨n, p + (k + 1 : Nat)⟩
    | none => s.search p k

end Span

/-- The shortest decimal that rounds to `m · 2^q`, for a positive `m`. The search starts on a grid
coarser than the number and ends at `10^(min q 0)`, on which the number lies. -/
def shortest (m : Nat) (q : Int) (narrow : Bool) : Digits :=
  let finest := min q 0
  let coarsest := (m.log2 + q) * 30103 / 100000 + 2
  (Span.ofBinary m q narrow).search finest (coarsest - finest).toNat

/-- A decimal with no exponent: zeros fill the places that the digits leave open. -/
def Digits.positional (d : Digits) : String :=
  let ds := toString d.digits
  if 0 ≤ d.exponent then
    ds.pushn '0' d.exponent.toNat
  else
    let places := (-d.exponent).toNat
    let padded := ("".pushn '0' (places + 1 - ds.length) ++ ds).toList
    let whole := padded.length - places
    String.ofList (padded.take whole) ++ "." ++ String.ofList (padded.drop whole)

end LinearProgram.Decimal
