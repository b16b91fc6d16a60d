import LinearProgram.Catalog
import LinearProgram.Shape.Basic

/-!
Index spaces: products of dimensions, with their sizes taken from a catalog each time.
-/

namespace LinearProgram

abbrev Space := List Dimension

namespace Space

def sizes (s : Space) (c : Catalog) : Outcome Shape := s.mapM c.size

def size (s : Space) (c : Catalog) : Outcome Nat := do (← s.sizes c).count

def offset (s : Space) (c : Catalog) (coords : List Nat) : Outcome Nat := do
  let sizes ← s.sizes c
  match ← sizes.offset? coords with
  | some k => return k
  | none => .refuse (.outsideSpace coords sizes)

def ofOffset (s : Space) (c : Catalog) (k : Nat) : Outcome (List Nat) := do
  let sizes ← s.sizes c
  let size ← sizes.count
  if size ≤ k then .refuse (.beyondSpace k size) else sizes.decode k

def labels (s : Space) (c : Catalog) (coords : List Nat) : Outcome (List String) :=
  (s.zip coords).mapM fun (d, i) => c.label d i

def resolve (s : Space) (c : Catalog) (labels : List String) : Outcome (List Nat) :=
  (s.zip labels).mapM fun (d, l) => c.indexOf d l

/-- The labels of an element as one text. -/
def labelText (s : Space) (c : Catalog) (k : Nat) : Outcome String := do
  return ",".intercalate (← s.labels c (← s.ofOffset c k))

/-- All elements in row-major order. -/
def elements (s : Space) (c : Catalog) : Outcome (List (List Nat)) := return (← s.sizes c).coords

end Space

end LinearProgram
