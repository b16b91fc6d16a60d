import LinearProgram.Word

/-!
Product spaces as mixed-radix numbers. A shape lists the sizes of its dimensions, the most
significant first; an element is a list of coordinates, and its offset is their value.
-/

namespace LinearProgram

abbrev Shape := List Nat

namespace Shape

/-- The number of elements; the product of no dimensions has one. -/
def count (d : Shape) : Outcome Nat := d.foldlM Word.mul 1

/-- The offset of unchecked coordinates, as far as both lists go. -/
def offset (d : Shape) (coords : List Nat) : Outcome Nat :=
  (coords.zip d).foldlM (fun acc (i, n) => do Word.add (← Word.mul acc n) i) 0

def Contains (d : Shape) (coords : List Nat) : Prop :=
  coords.length = d.length ∧ ∀ p ∈ coords.zip d, p.1 < p.2

instance (d : Shape) (coords : List Nat) : Decidable (d.Contains coords) :=
  inferInstanceAs (Decidable (_ ∧ _))

/-- The offset of coordinates that lie in the space, none of others. -/
def offset? (d : Shape) (coords : List Nat) : Outcome (Option Nat) :=
  if d.Contains coords then some <$> d.offset coords else .ok none

/-- The digits of `n`, the least significant split off first, and what is left of `n`. -/
def digits : Shape → Nat → Outcome (List Nat × Nat)
  | [], n => .ok ([], n)
  | d :: ds, n => do
    let (coords, n) ← digits ds n
    if d = 0 then .trap .zeroModulus else .ok (n % d :: coords, n / d)

def decode (d : Shape) (n : Nat) : Outcome (List Nat) := return (← d.digits n).1

/-- Decodes into a buffer of its own length; places beyond the shape keep what they hold. -/
def decodeInto (d : Shape) (n : Nat) (buffer : List Nat) : Outcome (List Nat) := do
  let coords ← decode (d.take buffer.length) n
  return coords ++ buffer.drop coords.length

/-- All coordinates in row-major order, dimension by dimension. -/
def grid : Shape → List (List Nat)
  | [] => [[]]
  | d :: ds =>
    let rest := grid ds
    (List.range d).flatMap fun i => rest.map (i :: ·)

/-- All coordinates in row-major order. An empty dimension is noticed before any is walked. -/
def coords (d : Shape) : List (List Nat) := if 0 ∈ d then [] else d.grid

theorem grid_eq_nil {d : Shape} (h : 0 ∈ d) : d.grid = [] := by
  induction d with
  | nil => cases h
  | cons n ds ih =>
    rcases List.mem_cons.1 h with rfl | h
    · rfl
    · simp [grid, ih h]

theorem coords_eq_grid (d : Shape) : d.coords = d.grid := by
  by_cases h : 0 ∈ d <;> simp [coords, h, grid_eq_nil]

end Shape

end LinearProgram
