import LinearProgram.Model.Action
import LinearProgram.Model.Rows
import LinearProgram.Proofs.Constraint.Holds

/-!
Rows as sets of points. A constraint becomes a row that holds at the same points: what its
expression has as a constant has moved into the bounds, and what has cancelled is left out. Main
statement: in a sealed model exactly the expressions that reach beyond the columns are refused, and
all others are flattened without loss.
-/

namespace LinearProgram

variable {κ : Type}

namespace Interval

/-- The number `y` lies between the bounds. -/
def Contains (y : Rat) : Interval Rat → Prop
  | free => True
  | atLeast l => l ≤ y
  | atMost u => y ≤ u
  | between l u => l ≤ y ∧ y ≤ u
  | fixed v => y = v

theorem contains_ofBounds_iff {lower upper : Option Rat}
    (h : ∀ l ∈ lower, ∀ u ∈ upper, l ≤ u) (y : Rat) :
    (ofBounds lower upper).Contains y ↔ (∀ l ∈ lower, l ≤ y) ∧ ∀ u ∈ upper, y ≤ u := by
  cases lower with
  | none => cases upper <;> simp [ofBounds, Contains]
  | some l =>
      cases upper with
      | none => simp [ofBounds, Contains]
      | some u =>
          simp only [Option.mem_some_iff, forall_eq', ofBounds] at h ⊢
          split
          · exact Iff.rfl
          · rename_i hapart
            -- bounds that are in order and not apart are equal
            have hsame : l = u := le_antisymm h (not_lt.mp hapart)
            rw [← hsame, and_comm]
            exact le_antisymm_iff

end Interval

def Row.Holds (r : Row Rat) (x : Nat → Rat) : Prop := r.bounds.Contains (LinearForm.dot x r.entries)

/-- No column from `n` on counts in an expression. -/
def Expr.Within [Scalar κ] (n : Nat) (e : Expr κ) : Prop :=
  ∀ p ∈ e.raw.entries, !(p.2 == 0) → p.1 < n

namespace Constraint

/-- The lower bound stands above the upper one. -/
def Crossed (c : Constraint Rat) : Prop := ∃ l ∈ c.lower, ∃ u ∈ c.upper, u < l

/-- The bounds that are left for an expression without its constant. -/
def rowBounds (c : Constraint Rat) : Interval Rat :=
  .ofBounds (c.lower.map (· - c.expr.raw.constant)) (c.upper.map (· - c.expr.raw.constant))

variable {c : Constraint Rat} {l u : Rat}

theorem rowBounds_of_crossed (hlower : c.lower = some l) (hupper : c.upper = some u)
    (h : u < l) : c.rowBounds = .fixed (l - c.expr.raw.constant) := by
  have hshifted : ¬l - c.expr.raw.constant < u - c.expr.raw.constant := by
    rw [sub_lt_sub_iff_right]
    exact h.asymm
  rw [rowBounds, hlower, hupper]
  exact if_neg hshifted

theorem rowBounds_contains_iff (h : ¬c.Crossed) (x : Nat → Rat) :
    c.rowBounds.Contains (LinearForm.dot x c.expr.raw.entries) ↔ c.Holds x := by
  have horder : ∀ l ∈ c.lower.map (· - c.expr.raw.constant),
      ∀ u ∈ c.upper.map (· - c.expr.raw.constant), l ≤ u := by
    simp only [Option.forall_mem_map, sub_le_sub_iff_right]
    intro l hl u hu
    exact not_lt.mp fun hlt => h ⟨l, hl, u, hu, hlt⟩
  have hlower (l : Rat) : l - c.expr.raw.constant ≤ LinearForm.dot x c.expr.raw.entries
      ↔ l ≤ c.expr.raw.valueAt x := sub_le_iff_le_add'
  have hupper (u : Rat) : LinearForm.dot x c.expr.raw.entries ≤ u - c.expr.raw.constant
      ↔ c.expr.raw.valueAt x ≤ u := le_sub_iff_add_le'
  rw [rowBounds, Interval.contains_ofBounds_iff horder]
  simp only [Option.forall_mem_map, hlower, hupper]
  constructor
  · rintro ⟨hl, hu⟩
    exact ⟨hl, hu⟩
  · intro hc
    exact ⟨hc.lower, hc.upper⟩

end Constraint

theorem Expr.forall_mem_live_iff [Scalar κ] {e : Expr κ} {n : Nat} :
    (∀ p ∈ e.live, p.1 < n) ↔ e.Within n := by
  simp [Expr.live, Expr.Within]

def Row.ofConstraint (c : NamedConstraint Rat) : Row Rat :=
  ⟨c.name, c.constraint.rowBounds, c.constraint.expr.live⟩

/-- What a row keeps of its constraint, in a model of `n` columns. -/
structure Row.Flattens (n : Nat) (c : NamedConstraint Rat) (r : Row Rat) : Prop where
  name : r.name = c.name
  within : ∀ p ∈ r.entries, p.1 < n
  holds : ¬c.constraint.Crossed → ∀ x, r.Holds x ↔ c.constraint.Holds x
  crossed : ∀ l u, c.constraint.lower = some l → c.constraint.upper = some u → u < l →
    r.bounds = .fixed (l - c.constraint.expr.raw.constant)

theorem Row.flattens_ofConstraint {c : NamedConstraint Rat} {n : Nat}
    (h : c.constraint.expr.Within n) : (Row.ofConstraint c).Flattens n c where
  name := rfl
  within := Expr.forall_mem_live_iff.mpr h
  holds hcrossed x := by
    rw [Row.Holds, ofConstraint, Expr.dot_live]
    exact Constraint.rowBounds_contains_iff hcrossed x
  crossed _ _ hlower hupper hlt := Constraint.rowBounds_of_crossed hlower hupper hlt

/-- What a flat objective keeps of the objective, in a model of `n` columns. -/
structure FlatObjective.Flattens (n : Nat) (o : Objective Rat) (flat : FlatObjective Rat) :
    Prop where
  name : flat.name = o.name
  sense : flat.sense = o.sense
  within : ∀ p ∈ flat.entries, p.1 < n
  value : ∀ x, flat.constant + LinearForm.dot x flat.entries = o.expr.raw.valueAt x

namespace Model

/-! ### Expressions that reach beyond the columns -/

section Checks

variable {m : Model κ} {owner : Option String} {entries : List (Nat × κ)}

theorem checkEntries_eq_ok (h : ∀ p ∈ entries, p.1 < m.columnCount) :
    m.checkEntries owner entries = .ok () := by
  unfold checkEntries
  split
  · rename_i j c hfind
    have hbelow : j < m.columnCount := h _ (List.mem_of_find?_eq_some hfind)
    have hbeyond := List.find?_some hfind
    exact (not_le.mpr hbelow (of_decide_eq_true hbeyond)).elim
  · rfl

theorem checkEntries_of_stray (h : ¬∀ p ∈ entries, p.1 < m.columnCount) :
    (m.checkEntries owner entries).RefusedAs .invalidIndex := by
  unfold checkEntries
  split
  · exact ⟨_, rfl, rfl⟩
  · rename_i hnone
    refine (h fun p hp => ?_).elim
    have hbelow := List.find?_eq_none.mp hnone p hp
    exact not_le.mp fun hbeyond => hbelow (decide_eq_true hbeyond)

end Checks

section Forms

variable [Scalar κ] {m : Model κ} {c : NamedConstraint κ} {f : LinearForm κ}

theorem row_of_form (hf : c.constraint.expr.linearForm = .ok f)
    (h : ∀ p ∈ f.entries, p.1 < m.columnCount) :
    m.row c = .ok ⟨c.name, .ofBounds (c.constraint.lower.map (· - f.constant))
      (c.constraint.upper.map (· - f.constant)), f.entries⟩ := by
  rw [row, hf, Outcome.ok_bind, checkEntries_eq_ok h]
  rfl

theorem row_of_strayForm (hf : c.constraint.expr.linearForm = .ok f)
    (h : ¬∀ p ∈ f.entries, p.1 < m.columnCount) : (m.row c).RefusedAs .invalidIndex := by
  rw [row, hf, Outcome.ok_bind]
  exact (checkEntries_of_stray h).bind _

/-- Rows that are each there or refused are refused together if one of them is. -/
theorem rows_of_refused (hsealed : m.isSealed = true) (hc : c ∈ m.constraints)
    (hrefused : (m.row c).RefusedAs .invalidIndex)
    (hall : ∀ d ∈ m.constraints, (∃ r, m.row d = .ok r) ∨ (m.row d).RefusedAs .invalidIndex) :
    m.rows.RefusedAs .invalidIndex := by
  rw [rows, whenSealed, if_pos hsealed, Outcome.ok_bind]
  exact Outcome.mapM_refused hc hrefused hall

theorem flatObjective_of_form (hsealed : m.isSealed = true)
    (hf : m.objective.expr.linearForm = .ok f) (h : ∀ p ∈ f.entries, p.1 < m.columnCount) :
    m.flatObjective
      = .ok ⟨m.objective.name, m.objective.sense, f.entries, f.constant⟩ := by
  rw [flatObjective, whenSealed, if_pos hsealed, Outcome.ok_bind, hf, Outcome.ok_bind,
    checkEntries_eq_ok h]
  rfl

theorem flatObjective_of_strayForm (hsealed : m.isSealed = true)
    (hf : m.objective.expr.linearForm = .ok f) (h : ¬∀ p ∈ f.entries, p.1 < m.columnCount) :
    m.flatObjective.RefusedAs .invalidIndex := by
  rw [flatObjective, whenSealed, if_pos hsealed, Outcome.ok_bind, hf, Outcome.ok_bind]
  exact (checkEntries_of_stray h).bind _

end Forms

/-! ### Rows and objective -/

variable {m : Model Rat} {c : NamedConstraint Rat}

theorem row_of_within (hc : c.constraint.expr.Filed)
    (h : c.constraint.expr.Within m.columnCount) : m.row c = .ok (.ofConstraint c) :=
  row_of_form hc.linearForm (Expr.forall_mem_live_iff.mpr h)

theorem row_of_not_within (hc : c.constraint.expr.Filed)
    (h : ¬c.constraint.expr.Within m.columnCount) : (m.row c).RefusedAs .invalidIndex :=
  row_of_strayForm hc.linearForm (mt Expr.forall_mem_live_iff.mp h)

theorem rows_of_within (hsealed : m.isSealed = true)
    (hfiled : ∀ c ∈ m.constraints, c.constraint.expr.Filed)
    (h : ∀ c ∈ m.constraints, c.constraint.expr.Within m.columnCount) :
    m.rows = .ok (m.constraints.map .ofConstraint) := by
  rw [rows, whenSealed, if_pos hsealed, Outcome.ok_bind, Outcome.mapM_eq_ok_iff,
    List.forall₂_map_right_iff, List.forall₂_same]
  exact fun c hc => row_of_within (hfiled c hc) (h c hc)

theorem rows_of_not_within (hsealed : m.isSealed = true)
    (hfiled : ∀ c ∈ m.constraints, c.constraint.expr.Filed)
    (h : ¬∀ c ∈ m.constraints, c.constraint.expr.Within m.columnCount) :
    m.rows.RefusedAs .invalidIndex := by
  simp only [not_forall] at h
  obtain ⟨c, hc, hstray⟩ := h
  refine rows_of_refused hsealed hc (row_of_not_within (hfiled c hc) hstray) fun d hd => ?_
  by_cases hwithin : d.constraint.expr.Within m.columnCount
  · exact .inl ⟨_, row_of_within (hfiled d hd) hwithin⟩
  · exact .inr (row_of_not_within (hfiled d hd) hwithin)

theorem flatObjective_of_within (hsealed : m.isSealed = true) (hfiled : m.objective.expr.Filed)
    (h : m.objective.expr.Within m.columnCount) :
    m.flatObjective = .ok ⟨m.objective.name, m.objective.sense, m.objective.expr.live,
      m.objective.expr.raw.constant⟩ :=
  flatObjective_of_form hsealed hfiled.linearForm (Expr.forall_mem_live_iff.mpr h)

theorem flatObjective_of_not_within (hsealed : m.isSealed = true)
    (hfiled : m.objective.expr.Filed) (h : ¬m.objective.expr.Within m.columnCount) :
    m.flatObjective.RefusedAs .invalidIndex :=
  flatObjective_of_strayForm hsealed hfiled.linearForm (mt Expr.forall_mem_live_iff.mp h)

/-- In a sealed model whose expressions are in good order the rows are there just if no constraint
reaches beyond the columns, and are refused as an invalid index otherwise. There is one for each
constraint, in the same order, that holds where the constraint does; bounds that cross are fixed at
the lower one. The objective is there under the same condition, with the same values. -/
theorem rows_hold_as_constraints (hsealed : m.isSealed = true)
    (hconstraints : ∀ c ∈ m.constraints, c.constraint.expr.Filed)
    (hobjective : m.objective.expr.Filed) :
    ((∀ c ∈ m.constraints, c.constraint.expr.Within m.columnCount) →
        ∃ rs, m.rows = .ok rs
          ∧ List.Forall₂ (Row.Flattens m.columnCount) m.constraints rs)
      ∧ ((¬∀ c ∈ m.constraints, c.constraint.expr.Within m.columnCount) →
        m.rows.RefusedAs .invalidIndex)
      ∧ (m.objective.expr.Within m.columnCount →
        ∃ o, m.flatObjective = .ok o ∧ o.Flattens m.columnCount m.objective)
      ∧ (¬m.objective.expr.Within m.columnCount →
        m.flatObjective.RefusedAs .invalidIndex) := by
  refine ⟨?_, rows_of_not_within hsealed hconstraints, ?_,
    flatObjective_of_not_within hsealed hobjective⟩
  · intro hwithin
    refine ⟨_, rows_of_within hsealed hconstraints hwithin, ?_⟩
    rw [List.forall₂_map_right_iff, List.forall₂_same]
    exact fun c hc => Row.flattens_ofConstraint (hwithin c hc)
  · intro hwithin
    refine ⟨_, flatObjective_of_within hsealed hobjective hwithin, rfl, rfl, ?_, ?_⟩
    · exact Expr.forall_mem_live_iff.mpr hwithin
    · intro x
      rw [Expr.dot_live]
      rfl

/-- Two columns, and a constraint between two bounds whose expression has a constant and, in a
column that does not exist, a term that has cancelled. -/
def cancelledModel : Model Rat :=
  (Model.empty none).run
    [.addLabels ⟨"A", .labelled⟩ ["a", "b"],
      .declareFamily (some "x") [⟨"A", .labelled⟩] .free,
      .constrain none ⟨.sum ⟨[(1, ⟨⟨0, 1⟩, 4⟩), (7, ⟨⟨0, 7⟩, 0⟩)], 2⟩, some 3, some 10⟩,
      .setObjective none none (some (.var ⟨0, 1⟩)),
      .sealUp]

theorem rows_of_cancelledModel :
    cancelledModel.isSealed = true
      ∧ (∀ c ∈ cancelledModel.constraints, c.constraint.expr.Filed)
      ∧ cancelledModel.objective.expr.Filed
      ∧ (∀ c ∈ cancelledModel.constraints, c.constraint.expr.Within cancelledModel.columnCount)
      ∧ ∃ rs, cancelledModel.rows = .ok rs ∧ List.Forall₂
        (Row.Flattens cancelledModel.columnCount) cancelledModel.constraints rs := by
  have hfiled : ∀ c ∈ cancelledModel.constraints, c.constraint.expr.Filed := by
    intro c hc
    cases List.mem_singleton.mp hc
    constructor <;> decide
  have hwithin : ∀ c ∈ cancelledModel.constraints,
      c.constraint.expr.Within cancelledModel.columnCount := by
    intro c hc
    cases List.mem_singleton.mp hc
    unfold Expr.Within
    decide
  have hobjective : cancelledModel.objective.expr.Filed := by
    change 0 + 1 < Word.limit
    decide
  obtain ⟨hrows, -⟩ := rows_hold_as_constraints (m := cancelledModel) rfl hfiled hobjective
  exact ⟨rfl, hfiled, hobjective, hwithin, hrows hwithin⟩

end Model

end LinearProgram
