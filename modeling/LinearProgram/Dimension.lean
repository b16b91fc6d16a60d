import LinearProgram.Word

/-!
Dimensions. One is either a set of labels, filled for each model, or a run of integers whose last
element is fixed or given for each model as the value of a limit. An element is addressed by its
position from zero. Dimensions and limits are told apart by markers, and may share their names.
-/

namespace LinearProgram

/-- A name with a tag, which tells markers of the same name apart. -/
structure Marker where
  name : String
  tag : Nat
  deriving DecidableEq

/-- A name alone stands for the first marker of that name. -/
instance : Coe String Marker := ⟨fun name => ⟨name, 0⟩⟩

inductive RangeEnd
  | fixed (upper : Int)
  | limit (marker : Marker)
  deriving DecidableEq

inductive Extent
  | labelled
  | range (lower : Int) (upper : RangeEnd)
  deriving DecidableEq

structure Dimension where
  marker : Marker
  extent : Extent
  deriving DecidableEq

namespace Dimension

def name (d : Dimension) : String := d.marker.name

/-- The value of the first element of a range. -/
def lower (d : Dimension) : Outcome Int :=
  match d.extent with
  | .labelled => .refuse (.notARange d.name)
  | .range lower _ => .ok lower

/-- The integer that stands at a position. -/
def value (d : Dimension) (n : Nat) : Outcome Int := do
  Signed.add (← d.lower) (Word.toSigned n)

/-- The position of an integer; only the lower end of the range is looked at. -/
def ofValue (d : Dimension) (v : Int) : Outcome Nat := do
  let lower ← d.lower
  if v < lower then .refuse (.belowFirst v lower d.name)
  else return (← Signed.sub v lower).toNat

/-- The position in `d` of the integer that stands at position `n` of `e`. -/
def convert (e d : Dimension) (n : Nat) : Outcome Nat := do d.ofValue (← e.value n)

def previous (d : Dimension) : Nat → Outcome Nat
  | 0 => .refuse (.beforeFirst d.name)
  | n + 1 => .ok n

end Dimension

/-- Positions counted from one. -/
def ordinal (n : Nat) : Outcome Nat := Word.add n 1

end LinearProgram
