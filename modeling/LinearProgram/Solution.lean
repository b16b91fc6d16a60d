import LinearProgram.Model.Layout

/-!
Solutions of a model, and how their values are read back by family and element.
-/

namespace LinearProgram

inductive Status
  | optimal
  | feasible
  | infeasible
  | unbounded
  | unknown
  deriving DecidableEq

/-- Values of all columns, and of the objective. -/
structure Solution (κ : Type) where
  status : Status
  values : List κ
  objective : κ

variable {κ : Type} [Scalar κ]

namespace Solution

/-- The columns of a family, from the first to before the last, within the solution. -/
def span (s : Solution κ) (c : Catalog) (f : Family κ) : Outcome (Nat × Nat) :=
  match f.start with
  | none => .refuse (.familyWithoutValues f.name)
  | some start => do
    let stop ← Word.add start (← f.size c)
    if s.values.length < stop then .refuse (.familyBeyondSolution f.name s.values.length)
    else return (start, stop)

/-- The values of a family in row-major order. -/
def familyValues (s : Solution κ) (c : Catalog) (f : Family κ) : Outcome (List κ) := do
  let (start, stop) ← s.span c f
  return (s.values.drop start).take (stop - start)

/-- The values of a family with the elements they belong to. -/
def elementValues (s : Solution κ) (c : Catalog) (f : Family κ) :
    Outcome (List (List Nat × κ)) := do
  let values ← s.familyValues c f
  return (← f.space.elements c).zip values

def evaluate (s : Solution κ) (e : Expr κ) : Outcome κ := do
  match ← e.evaluate s.values with
  | some v => return v
  | none => .refuse .expressionBeyondSolution

def value (s : Solution κ) (c : Catalog) (f : Family κ) (coords : List Nat) : Outcome κ := do
  s.evaluate (← f.exprAt c coords)

end Solution

/-- Hands a sealed model to a solver. -/
def Model.solve (solver : Model κ → Outcome (Solution κ)) (m : Model κ) :
    Outcome (Solution κ) := do
  m.whenSealed .solution
  solver m

end LinearProgram
