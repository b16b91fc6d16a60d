import LinearProgram.Dimension
import LinearProgram.Keyed
import LinearProgram.LabelSet
import LinearProgram.Text.Numeral

/-!
The index data of a model: the labels of each dimension and the values of the limits. Both
can be added to until the catalog is frozen.
-/

namespace LinearProgram

structure Catalog where
  sets : List (Dimension × List String)
  limits : List (Marker × Int)
  frozen : Bool
  deriving DecidableEq

namespace Catalog

def empty : Catalog := ⟨[], [], false⟩

def freeze (c : Catalog) : Catalog := { c with frozen := true }

def labels (c : Catalog) (d : Dimension) : List String := (Keyed.find? d c.sets).getD []

def labelSet (c : Catalog) (d : Dimension) : LabelSet := ⟨d.name, c.labels d⟩

/-- The label set of a dimension that has received a label. -/
def labelSet? (c : Catalog) (d : Dimension) : Option LabelSet :=
  if c.labels d = [] then none else some (c.labelSet d)

def limit? (c : Catalog) (marker : Marker) : Option Int := Keyed.find? marker c.limits

def addLabel (c : Catalog) (d : Dimension) (l : String) : Outcome (Nat × Catalog) :=
  if c.frozen then .refuse (.lateLabel l d.name)
  else
    match d.extent with
    | .range .. => .refuse (.labelForRange d.name)
    | .labelled => do
      let (k, s) ← (c.labelSet d).add l
      return (k, { c with sets := Keyed.put d s.labels c.sets })

def setLimit (c : Catalog) (marker : Marker) (v : Int) : Outcome Catalog :=
  if c.frozen then .refuse (.lateLimit marker.name)
  else .ok { c with limits := Keyed.put marker v c.limits }

/-- The value of the last element of a range, which an empty range need not have. -/
def upper (c : Catalog) (d : Dimension) : RangeEnd → Outcome Int
  | .fixed v => .ok v
  | .limit marker =>
    match c.limit? marker with
    | some v => .ok v
    | none => .refuse (.limitUnset d.name marker.name)

/-- The number of elements. -/
def size (c : Catalog) (d : Dimension) : Outcome Nat :=
  match d.extent with
  | .labelled => .ok (c.labelSet d).size
  | .range lower e => do
    let upper ← c.upper d e
    if upper < lower then return 0
    else return (← Signed.add (← Signed.sub upper lower) 1).toNat

/-- The position of a label; in a range it is a decimal integer. -/
def indexOf (c : Catalog) (d : Dimension) (l : String) : Outcome Nat :=
  match d.extent with
  | .labelled => (c.labelSet d).indexOf l
  | .range lower e => do
    let upper ← c.upper d e
    match Text.integer? l with
    | none => .refuse (.notAnInteger l d.name)
    | some v =>
      if v < lower ∨ upper < v then .refuse (.outsideRange v d.name lower upper)
      else return (← Signed.sub v lower).toNat

def label (c : Catalog) (d : Dimension) (k : Nat) : Outcome String := do
  let size ← c.size d
  if size ≤ k then .refuse (.outsideSet k d.name size)
  else
    match d.extent with
    | .labelled => (c.labelSet d).label k
    | .range .. => return toString (← d.value k)

/-- The position of an integer, with both ends of the range looked at. -/
def member (c : Catalog) (d : Dimension) (v : Int) : Outcome Nat := do
  let k ← d.ofValue v
  if k < (← c.size d) then return k else .refuse (.beyondLast v d.name)

end Catalog

end LinearProgram
