import LinearProgram.Domain
import LinearProgram.Naming
import LinearProgram.Space

/-!
Parameters: tables of numbers over an index space. The first store sizes the table; elements never
stored hold the default of that moment, and a table without data reads as the current default.
-/

namespace LinearProgram

structure Parameter (κ : Type) where
  name : String
  space : Space
  domain : Domain κ
  fallback : κ
  values : List κ

variable {κ : Type} [Scalar κ]

namespace Parameter

def populated (p : Parameter κ) : Bool := !p.values.isEmpty

def setDefault (v : κ) (p : Parameter κ) : Parameter κ := { p with fallback := v }

/-- A table of the given size, unless there is one already. -/
def allocate (size : Nat) (p : Parameter κ) : Parameter κ :=
  if p.populated then p else { p with values := List.replicate size p.fallback }

/-- Stores into a table whose size fits its sizes. -/
def write (sizes : Shape) (coords : List Nat) (v : κ) (p : Parameter κ) :
    Outcome (Parameter κ) := do
  match ← sizes.offset? coords with
  | some k => return { p with values := p.values.set k v }
  | none => .refuse (.outsideParameter coords p.name)

/-- The number of elements that a store finds, and their sizes. -/
def storable (c : Catalog) (p : Parameter κ) : Outcome (Shape × Nat) := do
  if c.frozen then .refuse (.lateStore p.name)
  else
    let sizes ← p.space.sizes c
    let size ← sizes.count
    if p.populated ∧ p.values.length ≠ size then .refuse (.resized p.name p.values.length size)
    else return (sizes, size)

/-- Stores a value. The table is allocated before the coordinates are looked at. -/
def store (c : Catalog) (coords : List Nat) (v : κ) (p : Parameter κ) :
    Outcome Unit × Parameter κ :=
  match p.storable c with
  | .error e => (.error e, p)
  | .ok (sizes, size) =>
    let p := p.allocate size
    match p.write sizes coords v with
    | .error e => (.error e, p)
    | .ok p => (.ok (), p)

def storeLabelled (c : Catalog) (labels : List String) (v : κ) (p : Parameter κ) :
    Outcome Unit × Parameter κ :=
  match p.space.resolve c labels with
  | .error e => (.error e, p)
  | .ok coords => p.store c coords v

def read (c : Catalog) (coords : List Nat) (p : Parameter κ) : Outcome κ := do
  if p.populated then
    let size ← p.space.size c
    if size ≠ p.values.length then .refuse (.resized p.name p.values.length size)
    else
      let k ← p.space.offset c coords
      return p.values.getD k p.fallback
  else return p.fallback

/-- Refuses a value beyond a bound; a strict bound is itself beyond. -/
def checkSide (p : Parameter κ) (c : Catalog) (coords : List Nat) (v : κ) (b : κ)
    (strictSign closedSign : String) (onBound beyond : Bool) : Outcome Unit :=
  let refuse (relation : String) : Outcome Unit :=
    let labels := (p.space.labels c coords).toOption.getD []
    .refuse (.outsideDomain (Naming.indexed p.name labels) (Scalar.text v) relation (Scalar.text b))
  if onBound then refuse strictSign else if beyond then refuse closedSign else .ok ()

/-- Checks the value of one element: lower bound, upper bound, integrality. -/
def checkElement (read : Reader κ) (c : Catalog) (p : Parameter κ) (k : Nat)
    (coords : List Nat) : Outcome Unit := do
  let v ← p.read c coords
  if let some b := p.domain.lower then
    let l ← b.eval read coords
    p.checkSide c coords v l ">" ">=" (b.strict ∧ v ≤ l) (v < l)
  if let some b := p.domain.upper then
    let u ← b.eval read coords
    p.checkSide c coords v u "<" "<=" (b.strict ∧ u ≤ v) (u < v)
  if p.domain.integer ∧ !Scalar.isWhole v then .refuse (.notWhole k p.name (Scalar.text v))

/-- Checks every element against the declared domain, in row-major order. -/
def check (read : Reader κ) (c : Catalog) (p : Parameter κ) : Outcome Unit := do
  let elements ← p.space.elements c
  elements.zipIdx.forM fun (coords, k) => p.checkElement read c k coords

end Parameter

end LinearProgram
