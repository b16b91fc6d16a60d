import LinearProgram.Interval
import LinearProgram.Log
import LinearProgram.Model.Basic
import LinearProgram.PrefixSum

/-!
The flat column layout. Families get contiguous runs of columns in the order of their declaration,
and every column can be traced back to its family.
-/

namespace LinearProgram

structure Column (κ : Type) where
  name : String
  bounds : Interval κ
  integer : Bool

variable {κ : Type} [Scalar κ]

namespace Model

/-- The column at which each family would end. -/
def layout (m : Model κ) : Outcome (List Nat) := do
  let sizes ← m.families.mapM (Family.size m.catalog)
  runningTotals Word.add sizes

/-- Places families one by one, up to the first that is placed already. -/
def placeAll : List (Family κ) → List Nat → Outcome Unit × List (Family κ)
  | f :: fs, start :: starts =>
    match f.place start with
    | .error e => (.error e, f :: fs)
    | .ok f =>
      let (o, fs) := placeAll fs starts
      (o, f :: fs)
  | fs, _ => (.ok (), fs)

/-- Fixes the columns and freezes the index data. -/
def sealUp (m : Model κ) : Outcome Unit × Model κ :=
  if m.isSealed then (.refuse .sealedTwice, m)
  else
    match m.layout with
    | .error e => (.error e, m)
    | .ok ends =>
      match placeAll m.families (0 :: ends) with
      | (.error e, families) => (.error e, { m with families })
      | (.ok (), families) =>
        (.ok (), { m with families, ends, catalog := m.catalog.freeze, isSealed := true })

/-- The number of columns, zero before sealing. -/
def columnCount (m : Model κ) : Nat := m.ends.getLastD 0

/-- What sealing reports: the families that it placed and, when it is done, the whole. -/
def sealReport (before after : Model κ) : List LogRecord :=
  (before.families.zip after.families).filterMap (fun (f, g) =>
    match f.start, g.start with
    | none, some start =>
      some (.placed g.name start (start + (g.size after.catalog).toOption.getD 0))
    | _, _ => none)
  ++ if before.isSealed = after.isSealed then []
    else [.laidOut after.name after.families.length after.columnCount]

def whenSealed (view : View) (m : Model κ) : Outcome Unit :=
  if m.isSealed then .ok () else .refuse (.beforeSeal view)

/-- The family that owns a column: the first that does not end at or before it. -/
def owner (column : Nat) (m : Model κ) : Outcome (Family κ) := do
  m.whenSealed .owner
  match m.families[blockAt m.ends column]? with
  | some f => return f
  | none => .refuse (.outsideModel column m.columnCount)

/-- The display name of a column: its family and, if it has any, its labels. -/
def columnName (column : Nat) (m : Model κ) : Outcome String := do
  let f ← m.owner column
  let labels ← f.labelText m.catalog column
  return Naming.titled f.name labels

def column (read : Reader κ) (m : Model κ) (column : Nat) : Outcome (Column κ) := do
  let f ← m.owner column
  let name ← m.columnName column
  let lower ← f.lowerAt read m.catalog column
  let upper ← f.upperAt read m.catalog column
  return ⟨name, .ofBounds lower upper, f.domain.integer⟩

def columns (read : Reader κ) (m : Model κ) : Outcome (List (Column κ)) := do
  m.whenSealed .columns
  (List.range m.columnCount).mapM (m.column read)

end Model

end LinearProgram
