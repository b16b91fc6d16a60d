import LinearProgram.Proofs.LpText.Entries
import Mathlib.Data.List.Forall2

/-!
Columns, read from LP text. The words of a line of bounds give the name of its column and both ends,
and the words of the section of integers give the names of the integer columns.
-/

namespace LinearProgram

namespace LpText

open Piece Scalar.Legible

/-- A new line begins. -/
def Starts (r : List Piece) : Prop := ∃ w t, r = first w :: t

variable {ws ws' : List String} {r r' : List Piece}

theorem map_next_inj (h : ws.map next ++ r = ws'.map next ++ r') (hr : Starts r)
    (hr' : Starts r') : ws = ws' ∧ r = r' := by
  obtain ⟨w₀, t, rfl⟩ := hr
  obtain ⟨w₀', t', rfl⟩ := hr'
  induction ws generalizing ws' with
  | nil =>
      cases ws' with
      | nil => exact ⟨rfl, h⟩
      | cons w' ws' => exact absurd (List.cons.inj h).1.symm (next_ne_first w' w₀)
  | cons w ws ih =>
      cases ws' with
      | nil => exact absurd (List.cons.inj h).1 (next_ne_first w w₀')
      | cons w' ws' =>
          obtain ⟨hhead, htail⟩ := List.cons.inj h
          obtain ⟨hws, hr⟩ := ih htail
          rw [eq_of_next_eq hhead, hws]
          exact ⟨rfl, hr⟩

theorem linePieces_inj (h : linePieces ws ++ r = linePieces ws' ++ r') (hr : Starts r)
    (hr' : Starts r') : ws = ws' ∧ r = r' :=
  map_next_inj (List.cons.inj h).2 hr hr'

variable {κ : Type} [Scalar κ] [Scalar.Legible κ] {n n' : String}

/-! ### Bounds -/

/-- Columns with the same name in LP text and the same ends, where `bottom` and `top` stand below
and above all numbers. -/
structure SameBounds (bottom top : κ) (c c' : Column κ) : Prop where
  name : name c.name = name c'.name
  lower : c.bounds.lower bottom = c'.bounds.lower bottom
  upper : c.bounds.upper top = c'.bounds.upper top

theorem bounds_inj {bottom : κ} (hbottom : Scalar.text bottom = "-inf") (top : κ)
    {b b' : Interval κ} (h : boundsWords n b = boundsWords n' b') :
    n = n' ∧ b.lower bottom = b'.lower bottom ∧ b.upper top = b'.upper top := by
  have htext {u v : κ} : Scalar.text u = Scalar.text v ↔ u = v := ⟨text_inj, congrArg _⟩
  have hleft {v : κ} : "-inf" = Scalar.text v ↔ bottom = v := by rw [← hbottom, htext]
  have hright {v : κ} : Scalar.text v = "-inf" ↔ v = bottom := by rw [← hbottom, htext]
  -- the second word tells the kinds of bounds apart, but for the one below and the one on both
  -- sides, where the bound below may be written out
  cases b <;> cases b' <;>
    simp [boundsWords, Interval.lower, Interval.upper, Interval.lower?, Interval.upper?, htext,
      hleft, hright] at h ⊢ <;>
    tauto

/-- A line begins that has no bounds of a column. -/
def Ends (r : List Piece) : Prop := ∃ w t, w ≠ "" ∧ r = first w :: t

omit [Scalar.Legible κ] in
theorem starts_columns (columns : List (Column κ)) (h : Ends r) :
    Starts (columnPieces columns ++ r) := by
  cases columns with
  | nil =>
      obtain ⟨w, t, -, rfl⟩ := h
      exact ⟨w, t, rfl⟩
  | cons c columns => exact ⟨"", _, rfl⟩

omit [Scalar.Legible κ] in
theorem ends_ne_columns (h : Ends r) (c : Column κ) (columns : List (Column κ)) :
    r ≠ columnPieces (c :: columns) ++ r' := by
  obtain ⟨w, t, hw, rfl⟩ := h
  exact fun heq => hw (eq_of_first_eq (List.cons.inj heq).1)

theorem columns_inj {bottom : κ} (hbottom : Scalar.text bottom = "-inf") (top : κ)
    {columns columns' : List (Column κ)}
    (h : columnPieces columns ++ r = columnPieces columns' ++ r') (hr : Ends r) (hr' : Ends r') :
    List.Forall₂ (SameBounds bottom top) columns columns' ∧ r = r' := by
  induction columns generalizing columns' with
  | nil =>
      cases columns' with
      | nil => exact ⟨.nil, h⟩
      | cons c' columns' => exact absurd h (ends_ne_columns hr c' columns')
  | cons c columns ih =>
      cases columns' with
      | nil => exact absurd h.symm (ends_ne_columns hr' c columns)
      | cons c' columns' =>
          simp only [columnPieces, List.flatMap_cons, List.append_assoc] at h
          obtain ⟨hwords, hrest⟩ :=
            linePieces_inj h (starts_columns columns hr) (starts_columns columns' hr')
          obtain ⟨hname, hlower, hupper⟩ := bounds_inj hbottom top hwords
          obtain ⟨hcolumns, hr⟩ := ih hrest
          exact ⟨.cons ⟨hname, hlower, hupper⟩ hcolumns, hr⟩

/-! ### Integer columns -/

/-- The words that do not begin a line. -/
def inner (ps : List Piece) : List Piece := ps.filter (·.mark = ' ')

theorem inner_linePieces (ws : List String) : inner (linePieces ws) = ws.map next := by
  simp [inner, linePieces, first, next, List.filter_eq_self]

theorem inner_generalPieces (names : List String) :
    inner (generalPieces names) = names.map next := by
  induction names using general.induct with
  | case1 a b c d e f g i names ih =>
      rw [generalPieces, inner, List.filter_append, ← inner, ← inner, inner_linePieces, ih]
      rfl
  | case2 => rfl
  | case3 names hmany hsome =>
      rw [generalPieces, inner_linePieces]
      all_goals assumption

/-- The names of the integer columns. -/
def integerNames (columns : List (Column κ)) : List String :=
  (columns.filter (·.integer)).map fun c => name c.name

omit [Scalar κ] [Scalar.Legible κ] in
theorem inner_generalSection (columns : List (Column κ)) :
    inner (generalSectionPieces columns) = (integerNames columns).map next := by
  unfold generalSectionPieces integerNames
  cases columns.filter (·.integer) with
  | nil => rfl
  | cons c cs => exact inner_generalPieces _

omit [Scalar κ] [Scalar.Legible κ] in
theorem generalSection_inj {columns columns' : List (Column κ)}
    (h : generalSectionPieces columns ++ r = generalSectionPieces columns' ++ r) :
    integerNames columns = integerNames columns' := by
  have hinner := congrArg inner (List.append_cancel_right h)
  rw [inner_generalSection, inner_generalSection] at hinner
  exact (List.map_inj_right fun _ _ => eq_of_next_eq).mp hinner

omit [Scalar κ] [Scalar.Legible κ] in
theorem ends_generalSection (columns : List (Column κ)) :
    Ends (generalSectionPieces columns ++ [first "End", first ""]) := by
  unfold generalSectionPieces
  split
  · exact ⟨"End", _, by decide, rfl⟩
  · exact ⟨"General", _, by decide, rfl⟩

end LpText

end LinearProgram
