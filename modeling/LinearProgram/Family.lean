import LinearProgram.Domain
import LinearProgram.Expr.Basic
import LinearProgram.Space
import LinearProgram.Text.Quoted

/-!
Families of decision variables over an index space. A family has columns once it has been placed;
its elements follow each other in row-major order.
-/

namespace LinearProgram

structure Family (κ : Type) where
  name : String
  space : Space
  domain : Domain κ
  start : Option Nat

variable {κ : Type} [Scalar κ]

namespace Family

def size (c : Catalog) (f : Family κ) : Outcome Nat := f.space.size c

/-- Places a family at a column, once. -/
def place (start : Nat) (f : Family κ) : Outcome (Family κ) :=
  match f.start with
  | some _ => .refuse (.familyPlaced f.name)
  | none => .ok { f with start := some start }

def exprAt (c : Catalog) (coords : List Nat) (f : Family κ) : Outcome (Expr κ) :=
  match f.start with
  | none => .refuse (.familyUnplaced f.name)
  | some start => return .var ⟨start, ← f.space.offset c coords⟩

def exprAtLabels (c : Catalog) (labels : List String) (f : Family κ) : Outcome (Expr κ) := do
  f.exprAt c (← f.space.resolve c labels)

/-- The coordinates of the element in a column. -/
def coordsAt (c : Catalog) (column : Nat) (f : Family κ) : Outcome (List Nat) :=
  match f.start with
  | none => .refuse (.familyWithoutColumns f.name)
  | some start =>
    if column < start then .refuse (.outsideFamily column f.name)
    else
      match f.space.ofOffset c (column - start) with
      | .error (.fault _) => .refuse (.outsideFamily column f.name)
      | o => o

/-- The labels of the element in a column, as one text. -/
def labelText (c : Catalog) (column : Nat) (f : Family κ) : Outcome String := do
  let coords ← f.coordsAt c column
  return ",".intercalate (← f.space.labels c coords)

def lowerAt (read : Reader κ) (c : Catalog) (column : Nat) (f : Family κ) :
    Outcome (Option κ) := do
  let coords ← f.coordsAt c column
  f.domain.lowerAt read coords

def upperAt (read : Reader κ) (c : Catalog) (column : Nat) (f : Family κ) :
    Outcome (Option κ) := do
  let coords ← f.coordsAt c column
  f.domain.upperAt read coords

def describe (f : Family κ) : String :=
  "VariableSet \x7b name: " ++ Text.quoted f.name
    ++ ", start: " ++ f.start.elim "None" (fun n => "Some(" ++ toString n ++ ")")
    ++ ", domain: " ++ f.domain.describe ++ " \x7d"

end Family

end LinearProgram
