import LinearProgram.Proofs.Expr.Terms
import LinearProgram.Proofs.Model.DisplayNames
import LinearProgram.Proofs.Model.Rows

/-!
What keeps a sealed model from being flattened. Its columns can all be worked out if the bounds of
their elements can, and its rows and its objective unless a term that has not cancelled stands
beyond the columns. Expressions may have any terms whose columns are machine words, also those of
other models.
-/

namespace LinearProgram

variable {κ : Type} [Scalar κ]

namespace Expr

variable {e : Expr κ}

/-- A term that has not cancelled stands in column `n` or beyond. -/
def Reaches (n : Nat) (e : Expr κ) : Prop :=
  ∃ t ∈ e.terms, (t.coefficient == 0) = false ∧ n ≤ t.column

instance (n : Nat) (e : Expr κ) : Decidable (e.Reaches n) :=
  inferInstanceAs (Decidable (∃ t ∈ e.terms, (t.coefficient == 0) = false ∧ n ≤ t.column))

theorem InWords.exists_rawForm (h : e.InWords) :
    ∃ v, e.rawForm = .ok ⟨e.terms.map fun t => (t.column, t.coefficient), v⟩ := by
  have hcolumn : ∀ t ∈ e.terms, t.ref.column = .ok t.column := fun t ht =>
    Variable.column_eq_ok_iff.mpr ⟨h t ht, rfl⟩
  cases e with
  | const v => exact ⟨v, rfl⟩
  | var x =>
      have hx : x.column = .ok (x.start + x.offset) := hcolumn ⟨x, 1⟩ (List.mem_singleton.mpr rfl)
      refine ⟨0, ?_⟩
      rw [rawForm, hx]
      rfl
  | term t =>
      refine ⟨0, ?_⟩
      rw [rawForm, hcolumn t (List.mem_singleton.mpr rfl)]
      rfl
  | sum s =>
      have hentries : (s.terms.mapM fun p => return (← p.2.ref.column, p.2.coefficient) :
          Outcome (List (Nat × κ)))
            = .ok ((sum s).terms.map fun t => (t.column, t.coefficient)) := by
        rw [Outcome.mapM_eq_ok_iff, terms, List.map_map, List.forall₂_map_right_iff,
          List.forall₂_same]
        intro p hp
        exact Outcome.bind_eq_ok_iff.mpr
          ⟨p.2.column, hcolumn p.2 (List.mem_map_of_mem hp), rfl⟩
      exact ⟨s.constant, Outcome.bind_eq_ok_iff.mpr ⟨_, hentries, rfl⟩⟩

/-- The linear form of an expression stays within as many columns as no term reaches beyond. -/
theorem InWords.exists_linearForm (h : e.InWords) :
    ∃ f, e.linearForm = .ok f ∧ ∀ n, (∀ p ∈ f.entries, p.1 < n) ↔ ¬e.Reaches n := by
  obtain ⟨v, hraw⟩ := h.exists_rawForm
  refine ⟨_, Outcome.bind_eq_ok_iff.mpr ⟨_, hraw, rfl⟩, fun n => ?_⟩
  simp only [List.mem_filter, List.mem_map, Reaches, not_exists, not_and, Nat.not_le]
  constructor
  · intro hall t ht hlive
    exact hall (t.column, t.coefficient) ⟨⟨t, ht, rfl⟩, by simp [hlive]⟩
  · rintro hall p ⟨⟨t, ht, rfl⟩, hlive⟩
    exact hall t ht (by simpa using hlive)

end Expr

namespace Model

variable {m : Model κ} {sizes : List Nat} {read : Reader κ} {c : NamedConstraint κ}

/-- The expressions of the constraints and of the objective. -/
def expressions (m : Model κ) : List (Expr κ) :=
  m.constraints.map (·.constraint.expr) ++ [m.objective.expr]

/-- Some constraint, or the objective, has a term beyond the columns that has not cancelled. -/
def Strays (m : Model κ) : Prop := ∃ e ∈ m.expressions, e.Reaches m.columnCount

/-- The bounds of all elements that have a column can be worked out. -/
def BoundsKnown (read : Reader κ) (m : Model κ) : Prop :=
  ∀ f ∈ m.families, ∀ coords j, f.HasColumn m.catalog coords j →
    (∃ l, f.domain.lowerAt read coords = .ok l) ∧ ∃ u, f.domain.upperAt read coords = .ok u

omit [Scalar κ] in
theorem mem_expressions_of_constraint (hc : c ∈ m.constraints) :
    c.constraint.expr ∈ m.expressions :=
  List.mem_append_left _ (List.mem_map_of_mem hc)

omit [Scalar κ] in
theorem objective_mem_expressions (m : Model κ) : m.objective.expr ∈ m.expressions :=
  List.mem_append_right _ (List.mem_singleton.mpr rfl)

/-! ### Columns -/

theorem LaidOut.exists_column (h : m.LaidOut sizes) (hm : m.InWords)
    (hdistinct : m.catalog.Distinct) (hbounds : m.BoundsKnown read) {j : Nat}
    (hj : j < m.columnCount) : ∃ col, m.column read j = .ok col := by
  obtain ⟨i, f, coords, labels, hnamed⟩ := h.exists_namedAfter hm hdistinct hj
  obtain ⟨start, n, hplaced, -⟩ := h.exists_placed hnamed.family
  have hcoords : f.coordsAt m.catalog j = .ok coords := hplaced.coordsAt hnamed.hasColumn
  have howner : m.owner j = .ok f :=
    h.owner_eq hnamed.family ((h.covers_iff hnamed.family).mp (hplaced.covers hnamed.hasColumn))
  obtain ⟨⟨l, hl⟩, u, hu⟩ :=
    hbounds f (List.mem_of_getElem? hnamed.family) coords j hnamed.hasColumn
  have hlower : f.lowerAt read m.catalog j = .ok l := by
    rw [Family.lowerAt, hcoords, Outcome.ok_bind, hl]
  have hupper : f.upperAt read m.catalog j = .ok u := by
    rw [Family.upperAt, hcoords, Outcome.ok_bind, hu]
  refine ⟨⟨Naming.titled f.name (",".intercalate labels), .ofBounds l u, f.domain.integer⟩, ?_⟩
  rw [column, howner, Outcome.ok_bind, hnamed.name, Outcome.ok_bind, hlower, Outcome.ok_bind,
    hupper]
  rfl

theorem LaidOut.exists_columns (h : m.LaidOut sizes) (hm : m.InWords)
    (hdistinct : m.catalog.Distinct) (hbounds : m.BoundsKnown read) :
    ∃ columns, m.columns read = .ok columns := by
  obtain ⟨columns, hcolumns⟩ := Outcome.exists_forall₂_iff.mpr fun j hj =>
    h.exists_column hm hdistinct hbounds (List.mem_range.mp hj)
  refine ⟨columns, ?_⟩
  rw [Model.columns, whenSealed, if_pos h.isSealed, Outcome.ok_bind]
  exact Outcome.mapM_eq_ok_iff.mpr hcolumns

/-! ### Rows and objective -/

theorem row_of_reaching (h : c.constraint.expr.InWords)
    (hreaches : c.constraint.expr.Reaches m.columnCount) :
    (m.row c).RefusedAs .invalidIndex := by
  obtain ⟨f, hf, hentries⟩ := h.exists_linearForm
  exact row_of_strayForm hf (mt (hentries m.columnCount).mp (not_not.mpr hreaches))

theorem exists_row (h : c.constraint.expr.InWords)
    (hwithin : ¬c.constraint.expr.Reaches m.columnCount) : ∃ r, m.row c = .ok r := by
  obtain ⟨f, hf, hentries⟩ := h.exists_linearForm
  exact ⟨_, row_of_form hf ((hentries m.columnCount).mpr hwithin)⟩

theorem rows_of_reaching (hsealed : m.isSealed = true)
    (hwords : ∀ c ∈ m.constraints, c.constraint.expr.InWords) (hc : c ∈ m.constraints)
    (hreaches : c.constraint.expr.Reaches m.columnCount) : m.rows.RefusedAs .invalidIndex := by
  refine rows_of_refused hsealed hc (row_of_reaching (hwords c hc) hreaches) fun d hd => ?_
  by_cases hother : d.constraint.expr.Reaches m.columnCount
  · exact .inr (row_of_reaching (hwords d hd) hother)
  · exact .inl (exists_row (hwords d hd) hother)

theorem exists_rows (hsealed : m.isSealed = true)
    (hwords : ∀ c ∈ m.constraints, c.constraint.expr.InWords)
    (hwithin : ∀ c ∈ m.constraints, ¬c.constraint.expr.Reaches m.columnCount) :
    ∃ rows, m.rows = .ok rows := by
  obtain ⟨rows, hrows⟩ := Outcome.exists_forall₂_iff.mpr fun c hc =>
    exists_row (hwords c hc) (hwithin c hc)
  refine ⟨rows, ?_⟩
  rw [Model.rows, whenSealed, if_pos hsealed, Outcome.ok_bind]
  exact Outcome.mapM_eq_ok_iff.mpr hrows

theorem flatObjective_of_reaching (hsealed : m.isSealed = true)
    (h : m.objective.expr.InWords) (hreaches : m.objective.expr.Reaches m.columnCount) :
    m.flatObjective.RefusedAs .invalidIndex := by
  obtain ⟨f, hf, hentries⟩ := h.exists_linearForm
  exact flatObjective_of_strayForm hsealed hf
    (mt (hentries m.columnCount).mp (not_not.mpr hreaches))

theorem exists_flatObjective (hsealed : m.isSealed = true) (h : m.objective.expr.InWords)
    (hwithin : ¬m.objective.expr.Reaches m.columnCount) : ∃ o, m.flatObjective = .ok o := by
  obtain ⟨f, hf, hentries⟩ := h.exists_linearForm
  exact ⟨_, flatObjective_of_form hsealed hf ((hentries m.columnCount).mpr hwithin)⟩

/-- A sealed model has rows and an objective, unless one of its expressions strays: then the rows
are refused, or they are there and the objective is refused. -/
theorem rows_and_objective_of_sealed (hsealed : m.isSealed = true)
    (hwords : ∀ e ∈ m.expressions, e.InWords) :
    (¬m.Strays → (∃ rows, m.rows = .ok rows) ∧ ∃ o, m.flatObjective = .ok o)
      ∧ (m.Strays → m.rows.RefusedAs .invalidIndex
        ∨ (∃ rows, m.rows = .ok rows) ∧ m.flatObjective.RefusedAs .invalidIndex) := by
  have hconstraints : ∀ c ∈ m.constraints, c.constraint.expr.InWords := fun c hc =>
    hwords _ (mem_expressions_of_constraint hc)
  have hobjective := hwords _ m.objective_mem_expressions
  by_cases hrows : ∀ c ∈ m.constraints, ¬c.constraint.expr.Reaches m.columnCount
  · refine ⟨fun hwithin => ⟨exists_rows hsealed hconstraints hrows, ?_⟩, ?_⟩
    · exact exists_flatObjective hsealed hobjective fun hreaches =>
        hwithin ⟨_, m.objective_mem_expressions, hreaches⟩
    · rintro ⟨e, he, hreaches⟩
      refine .inr ⟨exists_rows hsealed hconstraints hrows, ?_⟩
      rcases List.mem_append.mp he with hmem | hmem
      · obtain ⟨c, hc, rfl⟩ := List.mem_map.mp hmem
        exact absurd hreaches (hrows c hc)
      · cases List.mem_singleton.mp hmem
        exact flatObjective_of_reaching hsealed hobjective hreaches
  · simp only [not_forall, not_not] at hrows
    obtain ⟨c, hc, hreaches⟩ := hrows
    refine ⟨fun hwithin => absurd ⟨_, mem_expressions_of_constraint hc, hreaches⟩ hwithin, ?_⟩
    exact fun _ => .inl (rows_of_reaching hsealed hconstraints hc hreaches)

end Model

end LinearProgram
