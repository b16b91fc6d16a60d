import LinearProgram.Constraint.Basic
import LinearProgram.Family
import LinearProgram.Parameter

/-!
Models. An open model takes index data, parameters and families of variables; sealing fixes the
columns and freezes the index data. Constraints and the objective can be given at any time.
-/

namespace LinearProgram

inductive Sense
  | minimize
  | maximize
  deriving DecidableEq

structure Objective (κ : Type) where
  name : String
  sense : Sense
  expr : Expr κ

structure NamedConstraint (κ : Type) where
  name : String
  constraint : Constraint κ

/-- A model. `ends` holds, once it is sealed, the column at which each family ends. -/
structure Model (κ : Type) where
  name : Option String
  catalog : Catalog
  parameters : List (Parameter κ)
  families : List (Family κ)
  ends : List Nat
  isSealed : Bool
  objective : Objective κ
  constraints : List (NamedConstraint κ)

variable {κ : Type} [Scalar κ]

namespace Model

def empty (name : Option String) : Model κ :=
  { name
    catalog := .empty
    parameters := []
    families := []
    ends := []
    isSealed := false
    objective := ⟨"obj", .minimize, .const 0⟩
    constraints := [] }

def parameter (m : Model κ) (slot : Nat) : Outcome (Parameter κ) :=
  match m.parameters[slot]? with
  | some p => .ok p
  | none => .refuse (.unknownParameter slot)

def family (m : Model κ) (slot : Nat) : Outcome (Family κ) :=
  match m.families[slot]? with
  | some f => .ok f
  | none => .refuse (.unknownFamily slot)

/-- Adds labels one by one, up to the first that is refused. -/
def addLabels (d : Dimension) : List String → Model κ → Outcome (List Nat) × Model κ
  | [], m => (.ok [], m)
  | l :: ls, m =>
    match m.catalog.addLabel d l with
    | .error e => (.error e, m)
    | .ok (k, c) =>
      let (o, m) := addLabels d ls { m with catalog := c }
      (return k :: (← o), m)

def setLimit (marker : Marker) (v : Int) (m : Model κ) : Outcome (Model κ) := do
  return { m with catalog := ← m.catalog.setLimit marker v }

def declareParameter (name : Option String) (space : Space) (domain : Domain κ) (fallback : κ)
    (m : Model κ) : Model κ :=
  { m with
    parameters := m.parameters ++ [⟨name.getD "param", space, domain, fallback, []⟩] }

def setDefault (slot : Nat) (v : κ) (m : Model κ) : Outcome (Model κ) := do
  let p ← m.parameter slot
  return { m with parameters := m.parameters.set slot (p.setDefault v) }

/-- Applies a store to a parameter; the parameter keeps what a failed store has done to it. -/
def storeBy (slot : Nat) (f : Parameter κ → Outcome Unit × Parameter κ) (m : Model κ) :
    Outcome Unit × Model κ :=
  match m.parameter slot with
  | .error e => (.error e, m)
  | .ok p =>
    let (o, p) := f p
    (o, { m with parameters := m.parameters.set slot p })

def store (slot : Nat) (coords : List Nat) (v : κ) (m : Model κ) : Outcome Unit × Model κ :=
  m.storeBy slot (Parameter.store m.catalog coords v)

def storeLabelled (slot : Nat) (labels : List String) (v : κ) (m : Model κ) :
    Outcome Unit × Model κ :=
  m.storeBy slot (Parameter.storeLabelled m.catalog labels v)

/-- Declares a family; one without a name is called after its position. -/
def declareFamily (name : Option String) (space : Space) (domain : Domain κ) (m : Model κ) :
    Outcome (Model κ) :=
  if m.isSealed then .refuse (.lateFamily (name.getD ""))
  else
    let name := name.getD s!"x{m.families.length}"
    if m.families.any (·.name = name) then .refuse (.duplicateFamily name)
    else .ok { m with families := m.families ++ [⟨name, space, domain, none⟩] }

def placeFamily (slot start : Nat) (m : Model κ) : Outcome (Model κ) := do
  let f ← m.family slot
  return { m with families := m.families.set slot (← f.place start) }

/-- The name of the next constraint or group of constraints, if it is given none. -/
def nextName (m : Model κ) : String := s!"c{m.constraints.length}"

def constrain (name : Option String) (c : Constraint κ) (m : Model κ) : Model κ :=
  { m with constraints := m.constraints ++ [⟨name.getD m.nextName, c⟩] }

/-- One constraint for every element of a space, named after the element. -/
def constraintsOver (name : Option String) (space : Space)
    (body : List Nat → Outcome (Constraint κ)) (m : Model κ) :
    Outcome (List (NamedConstraint κ)) := do
  let elements ← space.elements m.catalog
  let base := name.getD m.nextName
  elements.mapM fun coords => do
    let c ← body coords
    let labels ← space.labels m.catalog coords
    return ⟨Naming.indexed base labels, c⟩

/-- Adds a group of constraints, all of them or none. -/
def constrainEach (name : Option String) (space : Space)
    (body : List Nat → Outcome (Constraint κ)) (m : Model κ) : Outcome (Model κ) := do
  return { m with constraints := m.constraints ++ (← m.constraintsOver name space body) }

/-- Replaces the given parts of the objective. -/
def setObjective (name : Option String) (sense : Option Sense) (e : Option (Expr κ))
    (m : Model κ) : Model κ :=
  { m with
    objective :=
      ⟨name.getD m.objective.name, sense.getD m.objective.sense, e.getD m.objective.expr⟩ }

/-- The sum of `body` over a space, each element's expression added as soon as it is there. -/
def sumOver (space : Space) (body : List Nat → Outcome (Expr κ)) (m : Model κ) :
    Outcome (Expr κ) := do
  let elements ← space.elements m.catalog
  let s ← elements.foldlM (fun s coords => do s.add (← body coords)) LinearSum.zero
  return .sum s

end Model

end LinearProgram
