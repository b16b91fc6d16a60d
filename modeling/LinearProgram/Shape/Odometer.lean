import LinearProgram.Shape.Basic

/-!
Stepping through a product space, the last dimension fastest.
-/

namespace LinearProgram

structure Odometer where
  shape : Shape
  current : List Nat
  finished : Bool
  deriving DecidableEq

namespace Odometer

def ofShape (d : Shape) : Odometer := ⟨d, d.map fun _ => 0, d.contains 0⟩

/-- Moves the wheels on by `carry`, the last one first; what is left of the carry comes back. -/
def turn (carry : Nat) : List (Nat × Nat) → Outcome (List Nat × Nat)
  | [] => .ok ([], carry)
  | (d, i) :: wheels => do
    let (rest, carry) ← turn carry wheels
    let i ← Word.add i carry
    return if i < d then (i :: rest, 0) else (0 :: rest, 1)

/-- The element under the wheels, and the odometer after it. -/
def next (o : Odometer) : Outcome (Option (List Nat) × Odometer) := do
  if o.finished then return (none, o)
  let (coords, carry) ← turn 1 (o.shape.zip o.current)
  return (some o.current, { o with current := coords, finished := 0 < carry })

/-- At most `n` further elements. -/
def take : Nat → Odometer → Outcome (List (List Nat))
  | 0, _ => .ok []
  | n + 1, o => do
    match ← o.next with
    | (none, _) => return []
    | (some coords, o) => return coords :: (← o.take n)

/-- All elements; no space has more than the product of its sizes. -/
def elements (d : Shape) : Outcome (List (List Nat)) := (ofShape d).take (d.foldl (· * ·) 1)

end Odometer

end LinearProgram
