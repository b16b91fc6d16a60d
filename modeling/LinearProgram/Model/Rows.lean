import LinearProgram.Model.Layout

/-!
The flat rows and objective of a sealed model. The constant of a constraint's expression moves into
the bounds of its row.
-/

namespace LinearProgram

structure Row (κ : Type) where
  name : String
  bounds : Interval κ
  entries : List (Nat × κ)

structure FlatObjective (κ : Type) where
  name : String
  sense : Sense
  entries : List (Nat × κ)
  constant : κ

variable {κ : Type} [Scalar κ]

namespace Model

/-- Refuses entries beyond the columns of the model. -/
def checkEntries (m : Model κ) (constraint : Option String) (entries : List (Nat × κ)) :
    Outcome Unit :=
  match entries.find? fun (j, _) => m.columnCount ≤ j with
  | some (j, _) => .refuse (.strayColumn constraint j m.columnCount)
  | none => .ok ()

def row (m : Model κ) (c : NamedConstraint κ) : Outcome (Row κ) := do
  let f ← c.constraint.expr.linearForm
  m.checkEntries (some c.name) f.entries
  let lower := c.constraint.lower.map (· - f.constant)
  let upper := c.constraint.upper.map (· - f.constant)
  return ⟨c.name, .ofBounds lower upper, f.entries⟩

def rows (m : Model κ) : Outcome (List (Row κ)) := do
  m.whenSealed .rows
  m.constraints.mapM m.row

def flatObjective (m : Model κ) : Outcome (FlatObjective κ) := do
  m.whenSealed .objective
  let f ← m.objective.expr.linearForm
  m.checkEntries none f.entries
  return ⟨m.objective.name, m.objective.sense, f.entries, f.constant⟩

end Model

end LinearProgram
