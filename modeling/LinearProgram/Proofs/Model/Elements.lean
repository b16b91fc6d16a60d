import LinearProgram.Proofs.Model.Sealed

/-!
Elements and columns of a sealed model. The elements in range of all families together correspond
to the columns below the column count, and each column's owner, name and bounds are those of its
element.
-/

namespace LinearProgram.Model

variable {κ : Type} {m : Model κ} {sizes : List Nat} {i j : Nat} {f : Family κ}

theorem Reachable.distinct [Scalar κ] (hm : m.Reachable) : m.catalog.Distinct :=
  hm.invariant (P := fun m => m.catalog.Distinct) (fun _ => Catalog.distinct_empty)
    fun _ a _ h => distinct_perform h a

/-! ### Places -/

theorem LaidOut.exists_placed (h : m.LaidOut sizes) (hf : m.families[i]? = some f) :
    ∃ start n, f.Placed m.catalog start n ∧ start + n < Word.limit := by
  have hi := h.lt_length hf
  refine ⟨_, _, h.placed hf hi, ?_⟩
  rw [← List.sum_take_succ sizes i hi]
  apply h.fits
  rw [h.ends]
  exact List.mem_map.mpr ⟨i, List.mem_range.mpr hi, rfl⟩

theorem LaidOut.not_covers (h : m.LaidOut sizes) {i' : Nat} {g : Family κ}
    (hf : m.families[i]? = some f) (hcovers : f.Covers m.catalog j) (hne : i' ≠ i)
    (hg : m.families[i']? = some g) : ¬g.Covers m.catalog j := by
  intro hother
  rw [h.covers_iff hf] at hcovers
  rw [h.covers_iff hg] at hother
  exact hne (hother.unique hcovers)

theorem LaidOut.existsUnique_element (h : m.LaidOut sizes) (hj : j < m.columnCount) :
    ∃! p : Nat × List Nat, ∃ f, m.families[p.1]? = some f ∧ f.HasColumn m.catalog p.2 j := by
  obtain ⟨i, f, hf, hblock⟩ := h.exists_family hj
  obtain ⟨start, n, hplaced, hfit⟩ := h.exists_placed hf
  obtain ⟨coords, hcolumn⟩ := hplaced.exists_element hfit.le ((h.covers_iff hf).mpr hblock)
  refine ⟨(i, coords), ⟨f, hf, hcolumn⟩, ?_⟩
  rintro ⟨i', coords'⟩ ⟨f', hf', hcolumn'⟩
  obtain ⟨start', n', hplaced', -⟩ := h.exists_placed hf'
  have hplace : i' = i := ((h.covers_iff hf').mp (hplaced'.covers hcolumn')).unique hblock
  subst hplace
  cases hf.symm.trans hf'
  exact congrArg (i', ·) (hplaced.hasColumn_unique hcolumn' hcolumn)

/-! ### The correspondence -/

/-- In a sealed model exactly the elements in range have variables, and these stand one to one in
the columns below the column count. A column's owner is the family of its element and tells the
element's labels and bounds; no other family knows the column. -/
theorem elements_correspond_to_columns [Scalar κ] (name : Option String)
    {history : List (Action κ)} (hordinary : ∀ a ∈ history, a.Ordinary)
    (hwords : ∀ a ∈ history, a.InWords)
    (hsealed : ((Model.empty name).run history).isSealed = true) (read : Reader κ) :
    let m := (Model.empty name).run history
    (∀ (i : Nat) (f : Family κ) (coords : List Nat), m.families[i]? = some f →
      ((∃ e, f.exprAt m.catalog coords = .ok e) ↔ f.space.InRange m.catalog coords))
    ∧ (∀ (i : Nat) (f : Family κ) (coords : List Nat), m.families[i]? = some f →
        f.space.InRange m.catalog coords →
        ∃ j, j < m.columnCount ∧ f.Describes read m.catalog coords j ∧ m.owner j = .ok f
          ∧ ∀ (i' : Nat) (g : Family κ), i' ≠ i → m.families[i']? = some g →
            g.Disowns read m.catalog j)
    ∧ ∀ j, j < m.columnCount →
        ∃! p : Nat × List Nat, ∃ f, m.families[p.1]? = some f ∧ f.HasColumn m.catalog p.2 j := by
  intro m
  have hm : m.Reachable := ⟨name, history, hordinary, rfl⟩
  have hm' : m.InWords := (inWords_empty name).run hwords
  obtain ⟨sizes, hlaid⟩ := hm.laidOut hsealed
  refine ⟨?_, ?_, fun j hj => hlaid.existsUnique_element hj⟩
  · intro i f coords hf
    obtain ⟨start, n, hplaced, -⟩ := hlaid.exists_placed hf
    exact hplaced.exists_exprAt_iff
  · intro i f coords hf hrange
    obtain ⟨start, n, hplaced, hfit⟩ := hlaid.exists_placed hf
    obtain ⟨j, hcolumn⟩ := hplaced.exists_hasColumn hfit.le hrange
    have hcovers : f.Covers m.catalog j := hplaced.covers hcolumn
    have hblock : InBlock sizes i j := (hlaid.covers_iff hf).mp hcovers
    have hspace : ∀ d ∈ f.space, d.InWords := hm'.spaces f (List.mem_of_getElem? hf)
    refine ⟨j, ?_, ?_, hlaid.owner_eq hf hblock, ?_⟩
    · rw [hlaid.columnCount]
      exact hblock.lt_sum
    · exact hplaced.describes read hm.distinct hm'.limits hspace hcolumn
    · intro i' g hne hg
      obtain ⟨start', n', hplaced', -⟩ := hlaid.exists_placed hg
      exact hplaced'.disowns read (hlaid.not_covers hf hcovers hne hg)

/-- A family over a set and a range, one over an empty range, and one without dimensions. -/
def mixedHistory : List (Action Rat) :=
  [.addLabels ⟨"A", .labelled⟩ ["a", "b"],
    .setLimit "T" 4,
    .declareFamily (some "x") [⟨"A", .labelled⟩, ⟨"R", .range 3 (.limit "T")⟩]
      (.atLeast (.byIndex fun coords => coords.length)),
    .declareFamily (some "v") [⟨"E", .range 1 (.fixed 0)⟩] .free,
    .declareFamily (some "w") [] .free,
    .sealUp]

theorem elements_of_mixedHistory :
    (∀ a ∈ mixedHistory, a.Ordinary) ∧ (∀ a ∈ mixedHistory, a.InWords)
      ∧ ((Model.empty none).run mixedHistory).isSealed = true
      ∧ let m := (Model.empty none).run mixedHistory
        ∃! p : Nat × List Nat, ∃ f : Family Rat,
          m.families[p.1]? = some f ∧ f.HasColumn m.catalog p.2 3 := by
  have hordinary : ∀ a ∈ mixedHistory, a.Ordinary := by simp [mixedHistory, Action.Ordinary]
  have hwords : ∀ a ∈ mixedHistory, a.InWords := by
    simp only [mixedHistory, List.forall_mem_cons, List.not_mem_nil, Action.InWords,
      false_implies, implies_true, and_true, true_and]
    decide
  have hsealed : ((Model.empty none).run mixedHistory).isSealed = true := by decide
  obtain ⟨-, -, hcolumns⟩ :=
    elements_correspond_to_columns none hordinary hwords hsealed (fun _ _ => .ok 0)
  exact ⟨hordinary, hwords, hsealed, hcolumns 3 (by decide)⟩

end LinearProgram.Model
