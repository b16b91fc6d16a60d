import LinearProgram.Proofs.Model.DisplayNames
import LinearProgram.Proofs.Model.Groups

/-!
Names of columns and of rows. The row of an element in a group is named after the group, with the
labels of the element in brackets; its column is named after the family in the same way, but looks
at the text that the labels make, and not at how many there are. Main statement: in a sealed model
row and column have one name, unless the only label of the element is empty.
-/

namespace LinearProgram

namespace Model

variable {κ : Type} {m : Model κ} {sizes : List Nat} {i j : Nat} {f : Family κ}
  {coords : List Nat} {labels : List String}

/-- An element of a family stands in column `j`, which has the name of the family with the labels of
the element in brackets, or without them if the only label is empty. -/
structure Bears (m : Model κ) (f : Family κ) (coords : List Nat) (j : Nat)
    (labels : List String) : Prop where
  hasColumn : f.HasColumn m.catalog coords j
  listed : f.space.labels m.catalog coords = .ok labels
  name : m.columnName j = .ok (if labels = [""] then f.name else Naming.indexed f.name labels)

theorem NamedAfter.bears (h : m.NamedAfter j i f coords labels) : m.Bears f coords j labels := by
  refine ⟨h.hasColumn, h.listed, ?_⟩
  rw [h.name, Naming.titled_intercalate]

theorem Bears.indexed_iff (h : m.Bears f coords j labels) :
    m.columnName j = .ok (Naming.indexed f.name labels) ↔ labels ≠ [""] := by
  rw [h.name, Except.ok.injEq]
  by_cases hblank : labels = [""]
  · rw [if_pos hblank, hblank]
    exact iff_of_false (Naming.indexed_blank_ne f.name).symm (not_not.mpr rfl)
  · rw [if_neg hblank]
    exact iff_of_true rfl hblank

theorem GroupRow.name_eq {base : String} {space : Space}
    {body : List Nat → Outcome (Constraint κ)} {r : NamedConstraint κ}
    (h : m.GroupRow base space body coords r) (hrange : space.InRange m.catalog coords)
    (hlabels : space.labels m.catalog coords = .ok labels) :
    r.name = Naming.indexed base labels := by
  obtain ⟨labels', hlabels', hname⟩ := h.name
  cases hlabels.symm.trans hlabels'
  have hempty : labels = [] ↔ space = [] := by
    rw [← List.length_eq_zero_iff, Space.length_labels hrange hlabels, List.length_eq_zero_iff]
  rw [hname, Naming.indexed_eq]
  simp only [hempty]

theorem LaidOut.exists_bears [Scalar κ] (h : m.LaidOut sizes) (hm : m.InWords)
    (hdistinct : m.catalog.Distinct) (hf : m.families[i]? = some f)
    (hrange : f.space.InRange m.catalog coords) : ∃ j labels, m.Bears f coords j labels := by
  obtain ⟨start, n, hplaced, hfit⟩ := h.exists_placed hf
  obtain ⟨j, hcolumn⟩ := hplaced.exists_hasColumn hfit.le hrange
  obtain ⟨labels, hnamed⟩ := h.namedAfter hm hdistinct hf hcolumn
  exact ⟨j, labels, hnamed.bears⟩

theorem LaidOut.exists_elements (h : m.LaidOut sizes) (hf : m.families[i]? = some f) :
    ∃ elements, f.space.elements m.catalog = .ok elements
      ∧ f.space.Enumerates m.catalog elements := by
  obtain ⟨start, n, hplaced, -⟩ := h.exists_placed hf
  obtain ⟨sizes, hsizes, -⟩ := Space.size_eq_ok hplaced.size_eq
  exact ⟨_, Space.elements_of_sizes hsizes, Space.enumerates_grid hsizes⟩

/-- In a sealed model, the column of every element of a family has the name of the family with the
labels of the element in brackets, unless the only label is empty. A group with the name and the
dimensions of the family gives the row of every element that name in any case, so that row and
column of an element have one name just if its only label is not empty. The integers of a model are
signed words. -/
theorem columns_named_as_rows [Scalar κ] (name : Option String) {history : List (Action κ)}
    (hwords : ∀ a ∈ history, a.InWords)
    (hsealed : ((Model.empty name).run history).isSealed = true) {i : Nat} {f : Family κ}
    (hf : ((Model.empty name).run history).families[i]? = some f) :
    let m := (Model.empty name).run history
    (∀ coords, f.space.InRange m.catalog coords → ∃ j labels, m.Bears f coords j labels
        ∧ (m.columnName j = .ok (Naming.indexed f.name labels) ↔ labels ≠ [""]))
      ∧ ∀ body : List Nat → Outcome (Constraint κ),
        (∀ coords, f.space.InRange m.catalog coords → ∃ k, body coords = .ok k) →
        ∃ elements rows, f.space.Enumerates m.catalog elements
          ∧ m.perform (.constrainEach (some f.name) f.space body)
            = (.ok [], { m with constraints := m.constraints ++ rows })
          ∧ List.Forall₂ (fun coords r => ∃ j labels, m.Bears f coords j labels
            ∧ r.name = Naming.indexed f.name labels
            ∧ (m.columnName j = .ok r.name ↔ labels ≠ [""])) elements rows := by
  intro m
  obtain ⟨sizes, hlaid⟩ := laidOut_of_sealed hsealed
  have hm : m.InWords := (inWords_empty name).run hwords
  have hdistinct : m.catalog.Distinct := distinct_run name history
  have hbears : ∀ coords, f.space.InRange m.catalog coords →
      ∃ j labels, m.Bears f coords j labels := fun _ => hlaid.exists_bears hm hdistinct hf
  refine ⟨fun coords hrange => ?_, fun body hbody => ?_⟩
  · obtain ⟨j, labels, h⟩ := hbears coords hrange
    exact ⟨j, labels, h, h.indexed_iff⟩
  obtain ⟨elements, helements, henumerates⟩ := hlaid.exists_elements hf
  have hrange : ∀ coords ∈ elements, f.space.InRange m.catalog coords := fun coords =>
    (henumerates.mem_iff coords).mp
  obtain ⟨rows, hperform, hrows⟩ :
      ∃ rows, m.perform (.constrainEach (some f.name) f.space body)
          = (.ok [], { m with constraints := m.constraints ++ rows })
        ∧ List.Forall₂ (m.GroupRow f.name f.space body) elements rows :=
    exists_group hm.limits (hm.spaces f (List.mem_of_getElem? hf)) helements hrange
      fun coords hcoords => hbody coords (hrange coords hcoords)
  refine ⟨elements, rows, henumerates, hperform, ?_⟩
  refine ((List.forall₂_and_left _ _).mpr ⟨hrange, hrows⟩).imp fun coords r ⟨hcoords, hr⟩ => ?_
  obtain ⟨j, labels, h⟩ := hbears coords hcoords
  have hname : r.name = Naming.indexed f.name labels := hr.name_eq hcoords h.listed
  exact ⟨j, labels, h, hname, hname ▸ h.indexed_iff⟩

/-- A set with an empty label, and families over it, over pairs of its labels and over nothing. -/
def blankLabels : List (Action Rat) :=
  [.addLabels ⟨"A", .labelled⟩ ["", "b"],
    .declareFamily (some "x") [⟨"A", .labelled⟩] .free,
    .declareFamily (some "y") [⟨"A", .labelled⟩, ⟨"A", .labelled⟩] .free,
    .declareFamily (some "z") [] .free,
    .sealUp]

/-- A constraint that does not depend on the element. -/
def sameForAll (_ : List Nat) : Outcome (Constraint Rat) := .ok ⟨.const 1, none, some 2⟩

theorem columns_named_as_rows_of_blankLabels :
    (∀ a ∈ blankLabels, a.InWords) ∧ ((Model.empty none).run blankLabels).isSealed = true
      ∧ let m := (Model.empty none).run blankLabels
        ∃ x y, m.families[0]? = some x ∧ m.families[1]? = some y
          ∧ (∃ j labels, m.Bears x [0] j labels
            ∧ (m.columnName j = .ok (Naming.indexed "x" labels) ↔ labels ≠ [""]))
          ∧ (∃ j labels, m.Bears y [0, 1] j labels
            ∧ (m.columnName j = .ok (Naming.indexed "y" labels) ↔ labels ≠ [""]))
          ∧ ∃ elements rows, y.space.Enumerates m.catalog elements
            ∧ m.perform (.constrainEach (some "y") y.space sameForAll)
              = (.ok [], { m with constraints := m.constraints ++ rows })
            ∧ List.Forall₂ (fun coords r => ∃ j labels, m.Bears y coords j labels
              ∧ r.name = Naming.indexed "y" labels
              ∧ (m.columnName j = .ok r.name ↔ labels ≠ [""])) elements rows := by
  have hwords : ∀ a ∈ blankLabels, a.InWords := by
    simp only [blankLabels, List.forall_mem_cons, List.not_mem_nil, Action.InWords,
      false_implies, implies_true, and_true, true_and]
    decide
  have hsealed : ((Model.empty none).run blankLabels).isSealed = true := by decide
  refine ⟨hwords, hsealed, _, _, rfl, rfl, ?_⟩
  obtain ⟨hx, -⟩ := columns_named_as_rows none hwords hsealed (i := 0) rfl
  obtain ⟨hy, hgroup⟩ := columns_named_as_rows none hwords hsealed (i := 1) rfl
  exact ⟨hx [0] (.cons ⟨2, rfl, by decide⟩ .nil),
    hy [0, 1] (.cons ⟨2, rfl, by decide⟩ (.cons ⟨2, rfl, by decide⟩ .nil)),
    hgroup sameForAll fun _ _ => ⟨_, rfl⟩⟩

/-- The column of the first element of the first family is named without brackets, its row with
them. Two empty labels have a comma between them, and no labels have no brackets anywhere. -/
theorem columnName_of_blankLabels :
    let m := (Model.empty none).run blankLabels
    let rows := (m.perform (.constrainEach (some "x") [⟨"A", .labelled⟩] sameForAll)).2.constraints
    m.isSealed = true
      ∧ (∃ x, m.families[0]? = some x ∧ x.name = "x" ∧ x.space = [⟨"A", .labelled⟩]
        ∧ x.HasColumn m.catalog [0] 0 ∧ x.space.labels m.catalog [0] = .ok [""])
      ∧ m.columnName 0 = .ok "x" ∧ rows.map (·.name) = ["x[]", "x[b]"]
      ∧ m.columnName 2 = .ok "y[,]" ∧ m.columnName 6 = .ok "z" := by
  refine ⟨by decide, ⟨_, rfl, rfl, rfl, ⟨_, rfl, rfl⟩, rfl⟩, by decide, by decide, by decide,
    by decide⟩

end Model

end LinearProgram
