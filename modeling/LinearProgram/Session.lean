import LinearProgram.LpText
import LinearProgram.Model.Action

/-!
Sessions: models side by side, with one log. Parameters and families belong to the model that
declared them, and bounds may read parameters of any model.
-/

namespace LinearProgram

/-- A family, by the model that declared it and its place there. -/
structure FamilyRef where
  model : Nat
  slot : Nat
  deriving DecidableEq

structure Session (κ : Type) where
  models : List (Model κ)
  log : List LogRecord

variable {κ : Type} [Scalar κ]

namespace Session

def empty : Session κ := ⟨[], []⟩

def model (s : Session κ) (k : Nat) : Outcome (Model κ) :=
  match s.models[k]? with
  | some m => .ok m
  | none => .refuse (.unknownModel k)

def parameter (s : Session κ) (p : ParameterRef) : Outcome (Parameter κ) := do
  (← s.model p.model).parameter p.slot

/-- A family, with the catalog of the model that declared it. -/
def family (s : Session κ) (f : FamilyRef) : Outcome (Catalog × Family κ) := do
  let m ← s.model f.model
  return (m.catalog, ← m.family f.slot)

/-- Parameters are read with the catalog of the model that declared them. -/
def read (s : Session κ) : Reader κ := fun p coords => do
  let m ← s.model p.model
  (← m.parameter p.slot).read m.catalog coords

/-- Adds a model without data. -/
def addModel (name : Option String) (s : Session κ) : Session κ :=
  { s with models := s.models ++ [.empty name] }

def report (records : List LogRecord) (s : Session κ) : Session κ :=
  { s with log := s.log ++ records }

def clearLog (s : Session κ) : Session κ := { s with log := [] }

/-- Carries out a request on one model. -/
def perform (k : Nat) (a : Action κ) (s : Session κ) : Outcome (List Nat) × Session κ :=
  match s.model k with
  | .error e => (.error e, s)
  | .ok before =>
    let (o, after) := before.perform a
    let records := match a with
      | .sealUp => before.sealReport after
      | _ => []
    (o, { s with models := s.models.set k after }.report records)

def checkParameter (s : Session κ) (p : ParameterRef) : Outcome Unit := do
  let m ← s.model p.model
  (← m.parameter p.slot).check s.read m.catalog

def columns (s : Session κ) (k : Nat) : Outcome (List (Column κ)) := do
  (← s.model k).columns s.read

def rows (s : Session κ) (k : Nat) : Outcome (List (Row κ)) × Session κ :=
  let o := do
    let m ← s.model k
    return (← m.rows, m.columnCount)
  match o with
  | .error e => (.error e, s)
  | .ok (rows, columns) => (.ok rows, s.report [.flattened rows.length columns])

/-- Writes a model as LP text. Columns, rows and objective are worked out before the first byte. -/
def write (k : Nat) (sink : Sink) (s : Session κ) : Outcome String × Session κ :=
  let start := do
    sink.opening
    s.columns k
  match start with
  | .error e => (.error e, s)
  | .ok columns =>
    let (rows, s) := s.rows k
    let text := do
      let rows ← rows
      let m ← s.model k
      let text := LpText.render m.name columns rows (← m.flatObjective)
      sink.accept text
      return (text, rows.length)
    match text with
    | .error e => (.error e, s)
    | .ok (text, rows) => (.ok text, s.report [.written columns.length rows])

end Session

end LinearProgram
