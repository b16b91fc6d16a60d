import LinearProgram.Model.Layout
import LinearProgram.Proofs.Catalog.Members
import LinearProgram.Proofs.Model.History

/-!
What the columns of a model depend on. Two models with the same families in the same phase, over
dimensions with the same members, have the same layout; and they have the same columns, as long as
the parameters that bound their families read the same.
-/

namespace LinearProgram

variable {κ : Type} {c c' : Catalog} {coords : List Nat} {read read' : Reader κ}

/-! ### Bounds -/

/-- One of the bounds of the domain holds the parameter. -/
inductive Domain.Reads (d : Domain κ) (ref : ParameterRef) : Prop
  | lower {b : Bound κ} (hside : d.lower = some b) (hheld : ref ∈ b.rule.captured)
  | upper {b : Bound κ} (hside : d.upper = some b) (hheld : ref ∈ b.rule.captured)

theorem Bound.eval_congr {b : Bound κ}
    (h : ∀ ref ∈ b.rule.captured, ∀ coords, read' ref coords = read ref coords) :
    b.eval read' coords = b.eval read coords := by
  have hcall : b.rule.call read' = b.rule.call read := by
    apply b.rule.locality
    intro ref hheld
    funext coords
    exact h ref hheld coords
  rw [eval, eval, BoundRule.eval, BoundRule.eval, hcall]

theorem Bound.mapM_eval_congr {side : Option (Bound κ)}
    (h : ∀ b, side = some b → ∀ ref ∈ b.rule.captured,
      ∀ coords, read' ref coords = read ref coords) :
    side.mapM (Bound.eval read' coords) = side.mapM (Bound.eval read coords) := by
  cases side with
  | none => rfl
  | some b => rw [Option.mapM_some, Option.mapM_some, Bound.eval_congr (h b rfl)]

theorem Domain.lowerAt_congr {d : Domain κ}
    (h : ∀ ref, d.Reads ref → ∀ coords, read' ref coords = read ref coords) :
    d.lowerAt read' coords = d.lowerAt read coords :=
  Bound.mapM_eval_congr fun _ hside ref hheld => h ref (.lower hside hheld)

theorem Domain.upperAt_congr {d : Domain κ}
    (h : ∀ ref, d.Reads ref → ∀ coords, read' ref coords = read ref coords) :
    d.upperAt read' coords = d.upperAt read coords :=
  Bound.mapM_eval_congr fun _ hside ref hheld => h ref (.upper hside hheld)

/-! ### Families -/

namespace Family

variable {f : Family κ}

theorem coordsAt_congr (h : f.space.Agree c c') (j : Nat) : f.coordsAt c' j = f.coordsAt c j := by
  simp only [coordsAt, h.ofOffset_eq]

theorem labelText_congr (h : f.space.Agree c c') (j : Nat) :
    f.labelText c' j = f.labelText c j := by
  simp only [labelText, coordsAt_congr h, h.labels_eq]

theorem lowerAt_congr (h : f.space.Agree c c')
    (hread : ∀ ref, f.domain.Reads ref → ∀ coords, read' ref coords = read ref coords) (j : Nat) :
    f.lowerAt read' c' j = f.lowerAt read c j := by
  rw [lowerAt, lowerAt, coordsAt_congr h]
  congr 1
  funext coords
  exact Domain.lowerAt_congr hread

theorem upperAt_congr (h : f.space.Agree c c')
    (hread : ∀ ref, f.domain.Reads ref → ∀ coords, read' ref coords = read ref coords) (j : Nat) :
    f.upperAt read' c' j = f.upperAt read c j := by
  rw [upperAt, upperAt, coordsAt_congr h]
  congr 1
  funext coords
  exact Domain.upperAt_congr hread

end Family

/-! ### Models -/

namespace Model

variable {m m' : Model κ}

/-- The same families in the same phase, over dimensions with the same members. -/
structure SameView (m m' : Model κ) : Prop where
  families : m'.families = m.families
  ends : m'.ends = m.ends
  isSealed : m'.isSealed = m.isSealed
  agree : ∀ d, m.catalog.Agree m'.catalog d

theorem SameData.sameView (h : m.SameData m') : m.SameView m' :=
  ⟨h.families, h.ends, h.isSealed, fun d => h.catalog ▸ .refl m.catalog d⟩

namespace SameView

theorem layout_eq (h : m.SameView m') : m'.layout = m.layout := by
  have hsize : Family.size (κ := κ) m'.catalog = Family.size m.catalog := by
    funext f
    have hspace : f.space.Agree m.catalog m'.catalog := fun d _ => h.agree d
    exact hspace.size_eq
  rw [layout, layout, h.families, hsize]

/-- Sealing fares the same on both, and both have the same families, columns and members after. -/
theorem sealUp (h : m.SameView m') :
    m'.sealUp.1 = m.sealUp.1 ∧ m.sealUp.2.SameView m'.sealUp.2 := by
  have hfrozen : ∀ d, m.catalog.freeze.Agree m'.catalog.freeze d := by
    intro d
    apply Catalog.Agree.trans (m.catalog.agree_freeze d).symm
    exact (h.agree d).trans (m'.catalog.agree_freeze d)
  -- which way sealing goes depends on phase, layout and families alone
  unfold Model.sealUp
  rw [h.isSealed, h.layout_eq, h.families]
  split
  · exact ⟨rfl, h⟩
  split
  · exact ⟨rfl, h⟩
  split
  · exact ⟨rfl, rfl, h.ends, rfl, h.agree⟩
  · exact ⟨rfl, rfl, rfl, rfl, hfrozen⟩

theorem columnCount_eq (h : m.SameView m') : m'.columnCount = m.columnCount := by
  rw [columnCount, columnCount, h.ends]

theorem owner_eq (h : m.SameView m') (j : Nat) : m'.owner j = m.owner j := by
  rw [owner, owner, whenSealed, whenSealed, h.isSealed, h.ends, h.families, h.columnCount_eq]

theorem columnName_eq (h : m.SameView m') (j : Nat) : m'.columnName j = m.columnName j := by
  have htext : ∀ f : Family κ, f.labelText m'.catalog j = f.labelText m.catalog j :=
    fun f => f.labelText_congr (fun d _ => h.agree d) j
  simp only [columnName, h.owner_eq, htext]

end SameView

theorem mem_families_of_owner {f : Family κ} {j : Nat} (h : m.owner j = .ok f) :
    f ∈ m.families := by
  obtain ⟨-, -, hrest⟩ := Outcome.bind_eq_ok_iff.mp h
  split at hrest
  · rename_i g hg
    cases hrest
    exact List.mem_of_getElem? hg
  · cases hrest

theorem SameView.column_eq [Scalar κ] (h : m.SameView m')
    (hread : ∀ f ∈ m.families, ∀ ref, f.domain.Reads ref →
      ∀ coords, read' ref coords = read ref coords) (j : Nat) :
    m'.column read' j = m.column read j := by
  unfold column
  rw [h.owner_eq, h.columnName_eq]
  cases howner : m.owner j with
  | error e => rfl
  | ok f =>
      have hagree : f.space.Agree m.catalog m'.catalog := fun d _ => h.agree d
      have hbound := hread f (mem_families_of_owner howner)
      simp only [Outcome.ok_bind, Family.lowerAt_congr hagree hbound,
        Family.upperAt_congr hagree hbound]

/-- The columns are the same when the parameters that bound the families read the same. -/
theorem SameView.columns_eq [Scalar κ] (h : m.SameView m')
    (hread : ∀ f ∈ m.families, ∀ ref, f.domain.Reads ref →
      ∀ coords, read' ref coords = read ref coords) :
    m'.columns read' = m.columns read := by
  have hcolumn : m'.column read' = m.column read := by
    funext j
    exact h.column_eq hread j
  rw [columns, columns, whenSealed, whenSealed, h.isSealed, h.columnCount_eq, hcolumn]

end Model

end LinearProgram
