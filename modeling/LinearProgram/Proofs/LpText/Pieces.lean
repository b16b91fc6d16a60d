import LinearProgram.Proofs.LpText.Words

/-!
The pieces of LP text, section by section. Entries name their columns here, and a row with two
bounds has become two lines. Main statement: behind its first line a problem's text is the text of
the problem's pieces.
-/

namespace LinearProgram

namespace LpText

open Piece

variable {κ : Type} [Scalar κ]

theorem joined_cons (p : Piece) (ps : List Piece) : joined (p :: ps) = p.chars ++ joined ps :=
  List.flatMap_cons

theorem joined_nil : joined [] = [] := rfl

theorem joined_map_next (ws : List String) :
    joined (ws.map next) = (String.join (ws.map (" " ++ ·))).toList := by
  rw [String.toList_join, joined, List.flatMap_map, List.flatMap_map]
  simp only [String.toList_append]
  rfl

/-- Lines with a line break in front of each. -/
def broken (ls : List String) : List Char := ls.flatMap fun l => '\n' :: l.toList

theorem broken_append (ls ms : List String) : broken (ls ++ ms) = broken ls ++ broken ms :=
  List.flatMap_append

theorem broken_cons (l : String) (ls : List String) :
    broken (l :: ls) = '\n' :: l.toList ++ broken ls := List.flatMap_cons

theorem broken_nil : broken [] = [] := rfl

theorem broken_singleton (l : String) : broken [l] = '\n' :: l.toList := List.append_nil _

theorem broken_flatMap {α : Type} (f : α → List String) (xs : List α) :
    broken (xs.flatMap f) = xs.flatMap fun x => broken (f x) := List.flatMap_assoc

theorem joined_flatMap {α : Type} (f : α → List Piece) (xs : List α) :
    joined (xs.flatMap f) = xs.flatMap fun x => joined (f x) := List.flatMap_assoc

theorem toList_join_lines (l : String) (ls : List String) :
    (String.join ((l :: ls).map (· ++ "\n"))).toList = l.toList ++ broken ls ++ ['\n'] := by
  rw [String.toList_join, List.flatMap_map]
  induction ls generalizing l with
  | nil => simp [broken]
  | cons m ls ih =>
      rw [List.flatMap_cons, ih m, broken_cons]
      simp

/-! ### Entries -/

/-- The words of a coefficient. -/
def signed (k : Nat) (c : κ) : List String :=
  if k = 0 then [Scalar.text c]
  else if c < 0 then ["-", Scalar.text (-c)]
  else ["+", Scalar.text c]

def entryPieces (k : Nat) (c : κ) (name : String) : List Piece :=
  (signed k c ++ [name]).map next ++ if k % 8 = 7 then [first ""] else []

/-- Entries with the names of their columns. -/
def named (names : Array String) (entries : List (Nat × κ)) : List (String × κ) :=
  entries.map fun (j, c) => (names.getD j "", c)

def entriesPieces : Nat → List (String × κ) → List Piece
  | _, [] => []
  | k, (name, c) :: es => entryPieces k c name ++ entriesPieces (k + 1) es

def linearPieces (es : List (String × κ)) : List Piece :=
  if es.isEmpty then [next "0"] else entriesPieces 0 es

theorem toList_entry (k : Nat) (c : κ) (name : String) :
    (entry k c name).toList = joined (entryPieces k c name) := by
  unfold entry entryPieces signed
  split <;> [skip; split] <;> split <;> simp [joined, chars, next, first]

theorem toList_entries (names : Array String) (entries : List (Nat × κ)) (k : Nat) :
    (String.join ((entries.zipIdx k).map fun ((j, c), k) => entry k c (names.getD j ""))).toList
      = joined (entriesPieces k (named names entries)) := by
  rw [String.toList_join, List.flatMap_map]
  induction entries generalizing k with
  | nil => rfl
  | cons e entries ih =>
      rw [List.zipIdx_cons, List.flatMap_cons, ih (k + 1), toList_entry]
      exact (joined_append _ _).symm

theorem toList_linear (names : Array String) (entries : List (Nat × κ)) :
    (linear names entries).toList = joined (linearPieces (named names entries)) := by
  have hempty : (named names entries).isEmpty = entries.isEmpty := List.isEmpty_map
  unfold linear linearPieces
  rw [hempty]
  split
  · rfl
  · exact toList_entries names entries 0

/-! ### The objective -/

def constantPieces (o : FlatObjective κ) : List Piece :=
  if !(o.constant == 0) || o.entries.isEmpty then
    [next (if o.constant < 0 then "-" else "+"), next (Scalar.text (Scalar.abs o.constant))]
  else []

def objectivePieces (names : Array String) (o : FlatObjective κ) : List Piece :=
  first "" :: next (name o.name) :: colon :: entriesPieces 0 (named names o.entries)
    ++ constantPieces o

theorem toList_constant (o : FlatObjective κ) :
    (constant o).toList = joined (constantPieces o) := by
  unfold constant constantPieces
  split
  · split <;> simp [joined, chars, next]
  · rfl

theorem toList_objective (names : Array String) (o : FlatObjective κ) :
    '\n' :: (objective names o).toList = joined (objectivePieces names o) := by
  have hentries : (if o.entries.isEmpty then "" else linear names o.entries).toList
      = joined (entriesPieces 0 (named names o.entries)) := by
    split
    · rename_i hempty
      rw [List.isEmpty_iff.mp hempty]
      rfl
    · rename_i hempty
      rw [linear, if_neg hempty]
      exact toList_entries names o.entries 0
  rw [objectivePieces, joined_append, ← toList_constant]
  simp only [joined_cons, ← hentries, objective, String.toList_append]
  simp [chars, first, next, colon]

/-! ### Rows -/

/-- A line of the section of rows. -/
inductive Line (κ : Type)
  | comment (name : String)
  | row (name : String) (entries : List (String × κ)) (relation : String) (v : κ)

def Line.pieces : Line κ → List Piece
  | comment name => [first "\\", next "free", next "row", next name]
  | row name entries relation v =>
    first "" :: next name :: colon :: linearPieces entries ++ [next relation, next (Scalar.text v)]

/-- The lines of a row. -/
def rowLines (names : Array String) (r : Row κ) : List (Line κ) :=
  match r.bounds with
  | .free => [.comment (name r.name)]
  | .atLeast l => [.row (name r.name) (named names r.entries) ">=" l]
  | .atMost u => [.row (name r.name) (named names r.entries) "<=" u]
  | .fixed v => [.row (name r.name) (named names r.entries) "=" v]
  | .between l u =>
    [.row (name r.name ++ ".lo") (named names r.entries) ">=" l,
      .row (name r.name ++ ".hi") (named names r.entries) "<=" u]

theorem joined_row (n : String) (names : Array String) (entries : List (Nat × κ))
    (relation : String) (v : κ) :
    joined (Line.row n (named names entries) relation v).pieces
      = '\n' :: (" " ++ n ++ ":" ++ linear names entries ++ " " ++ relation ++ " "
        ++ Scalar.text v).toList := by
  rw [Line.pieces, joined_append]
  simp only [joined_cons, joined_nil, ← toList_linear, String.toList_append]
  simp [chars, first, next, colon]

theorem broken_row (names : Array String) (r : Row κ) :
    broken (row names r) = joined ((rowLines names r).flatMap Line.pieces) := by
  unfold row rowLines
  cases r.bounds <;>
    simp only [List.flatMap_cons, List.flatMap_nil, List.append_nil, joined_append, joined_row]
  all_goals simp [broken, joined, Line.pieces, chars, first, next]

theorem broken_rows (names : Array String) (rows : List (Row κ)) :
    broken (rows.flatMap (row names))
      = joined ((rows.flatMap (rowLines names)).flatMap Line.pieces) := by
  rw [List.flatMap_assoc]
  simp only [broken_flatMap, broken_row, joined_flatMap]

/-! ### Columns -/

def boundsWords (name : String) : Interval κ → List String
  | .free => [name, "free"]
  | .atLeast l => [name, ">=", Scalar.text l]
  | .atMost u => ["-inf", "<=", name, "<=", Scalar.text u]
  | .between l u => [Scalar.text l, "<=", name, "<=", Scalar.text u]
  | .fixed v => [name, "=", Scalar.text v]

/-- A line of words. -/
def linePieces (ws : List String) : List Piece := first "" :: ws.map next

theorem toList_bounds (name : String) (b : Interval κ) :
    '\n' :: (bounds name b).toList = joined (linePieces (boundsWords name b)) := by
  cases b <;> simp [bounds, boundsWords, linePieces, joined, chars, first, next]

def columnPieces (columns : List (Column κ)) : List Piece :=
  columns.flatMap fun c => linePieces (boundsWords (name c.name) c.bounds)

theorem broken_columns (columns : List (Column κ)) :
    broken (columns.map fun c => bounds (name c.name) c.bounds)
      = joined (columnPieces columns) := by
  simp only [broken, List.flatMap_map, toList_bounds, columnPieces, joined_flatMap]

def generalPieces : List String → List Piece
  | a :: b :: c :: d :: e :: f :: g :: h :: names =>
    linePieces [a, b, c, d, e, f, g, h] ++ generalPieces names
  | [] => []
  | names => linePieces names

theorem joined_linePieces (ws : List String) :
    joined (linePieces ws) = '\n' :: (String.join (ws.map (" " ++ ·))).toList := by
  rw [← joined_map_next]
  rfl

theorem broken_general (names : List String) :
    broken (general names) = joined (generalPieces names) := by
  induction names using general.induct with
  | case1 a b c d e f g h names ih =>
      rw [general, generalPieces, broken_cons, joined_append, joined_linePieces, ih]
  | case2 => rfl
  | case3 names hmany hsome =>
      rw [general, generalPieces, joined_linePieces, broken_singleton]
      all_goals assumption

def generalSectionPieces (columns : List (Column κ)) : List Piece :=
  match columns.filter (·.integer) with
  | [] => []
  | integers => first "General" :: generalPieces (integers.map fun c => name c.name)

omit [Scalar κ] in
theorem broken_generalSection (columns : List (Column κ)) :
    broken (generalSection columns) = joined (generalSectionPieces columns) := by
  unfold generalSection generalSectionPieces
  cases columns.filter (·.integer) with
  | nil => rfl
  | cons c cs =>
      change broken ("General" :: general _) = _
      rw [broken_cons, broken_general]
      rfl

/-! ### The whole -/

def columnNames (columns : List (Column κ)) : Array String :=
  (columns.map fun c => name c.name).toArray

/-- The pieces of all lines but the first. -/
def pieces (columns : List (Column κ)) (rows : List (Row κ)) (o : FlatObjective κ) : List Piece :=
  first (sense o.sense) :: objectivePieces (columnNames columns) o
    ++ [first "Subject", next "To"]
    ++ (rows.flatMap (rowLines (columnNames columns))).flatMap Line.pieces
    ++ first "Bounds" :: columnPieces columns
    ++ generalSectionPieces columns
    ++ [first "End", first ""]

def titleLine (title : Option String) : String := "\\ Problem: " ++ title.getD "model"

theorem toList_render (title : Option String) (columns : List (Column κ)) (rows : List (Row κ))
    (o : FlatObjective κ) : (render title columns rows o).toList
      = (titleLine title).toList ++ joined (pieces columns rows o) := by
  change (String.join ((titleLine title :: (sense o.sense :: objective (columnNames columns) o
    :: "Subject To" :: rows.flatMap (row (columnNames columns))
      ++ "Bounds" :: columns.map (fun c => bounds (name c.name) c.bounds)
      ++ generalSection columns ++ ["End"])).map (· ++ "\n"))).toList = _
  rw [toList_join_lines]
  simp only [pieces, joined_append, joined_cons, joined_nil, broken_append, broken_cons,
    broken_nil, broken_rows, broken_columns, broken_generalSection, toList_objective]
  simp [chars, first, next]

end LpText

end LinearProgram
