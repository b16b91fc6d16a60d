import LinearProgram.Proofs.Model.Elements
import LinearProgram.Solution

/-!
Values of a solution, read back by family and element. The columns of a family are a run of the
solution's values, and its elements, in row-major order, have these values one by one. Main
statement: in a sealed model every family whose columns lie within the solution reads what stands in
them, and the runs of all families follow each other without gap or overlap.
-/

namespace LinearProgram

variable {κ : Type} {c : Catalog} {f : Family κ} {start n k j : Nat} {coords : List Nat}

namespace Solution

variable {s : Solution κ}

/-- The values in `n` columns from `start` on. -/
def run (s : Solution κ) (start n : Nat) : List κ := (s.values.drop start).take n

/-- A family of `n` elements reads the values in its columns, which begin at `start`. -/
structure ReadsBack [Scalar κ] (s : Solution κ) (c : Catalog) (f : Family κ) (start n : Nat) :
    Prop where
  length : (s.run start n).length = n
  familyValues : s.familyValues c f = .ok (s.run start n)
  elementValues : ∃ elements, f.space.elements c = .ok elements ∧ elements.length = n
    ∧ f.space.Lists c elements
    ∧ s.elementValues c f = .ok (elements.zip (s.run start n))
    ∧ ∀ coords, f.space.InRange c coords → ∃ j v, f.HasColumn c coords j
      ∧ s.values[j]? = some v ∧ s.value c f coords = .ok v
      ∧ (coords, v) ∈ elements.zip (s.run start n)

theorem length_run (h : start + n ≤ s.values.length) : (s.run start n).length = n := by
  rw [run, List.length_take, List.length_drop]
  omega

theorem getElem?_run (hk : k < n) : (s.run start n)[k]? = s.values[start + k]? := by
  rw [run, List.getElem?_take_of_lt hk, List.getElem?_drop]

theorem familyValues_of_placed (hf : f.Placed c start n) (hfit : start + n < Word.limit)
    (hwithin : start + n ≤ s.values.length) : s.familyValues c f = .ok (s.run start n) := by
  have hstop : Word.add start n = .ok (start + n) := if_pos hfit
  have hspan : s.span c f = .ok (start, start + n) := by
    rw [span, hf.start_eq]
    dsimp only
    rw [hf.size_eq, Outcome.ok_bind, hstop, Outcome.ok_bind, if_neg (Nat.not_lt.mpr hwithin)]
    rfl
  rw [familyValues, hspan, Outcome.ok_bind]
  dsimp only
  rw [Nat.add_sub_cancel_left]
  rfl

theorem familyValues_of_beyond (hf : f.Placed c start n) (hfit : start + n < Word.limit)
    (hbeyond : s.values.length < start + n) :
    (s.familyValues c f).RefusedAs .invalidIndex := by
  have hstop : Word.add start n = .ok (start + n) := if_pos hfit
  refine ⟨.familyBeyondSolution f.name s.values.length, rfl, ?_⟩
  rw [familyValues, span, hf.start_eq]
  dsimp only
  rw [hf.size_eq, Outcome.ok_bind, hstop, Outcome.ok_bind, if_pos hbeyond]
  rfl

theorem value_of_hasColumn [Scalar κ] {v : κ} (hf : f.HasColumn c coords j)
    (hv : s.values[j]? = some v) : s.value c f coords = .ok v := by
  obtain ⟨x, hx, hcolumn⟩ := hf
  rw [value, hx, Outcome.ok_bind, evaluate, Expr.evaluate, hcolumn, Outcome.ok_bind, hv]
  rfl

theorem mem_zip_run {elements : List (List Nat)} {v : κ} (helement : elements[k]? = some coords)
    (hk : k < n) (hv : s.values[start + k]? = some v) :
    (coords, v) ∈ elements.zip (s.run start n) := by
  apply List.mem_of_getElem? (i := k)
  rw [List.getElem?_zip_eq_some, getElem?_run hk]
  exact ⟨helement, hv⟩

theorem readsBack_of_placed [Scalar κ] (hf : f.Placed c start n) (hfit : start + n < Word.limit)
    (hwithin : start + n ≤ s.values.length) : s.ReadsBack c f start n := by
  have hvalues := familyValues_of_placed hf hfit hwithin
  obtain ⟨elements, helements, hlength, hplace⟩ := Space.exists_elements_by_offset hf.size_eq
  refine ⟨length_run hwithin, hvalues, elements, helements, hlength,
    Space.lists_of_offsets hf.size_eq hplace, ?_, fun coords hrange => ?_⟩
  · rw [elementValues, hvalues, Outcome.ok_bind, helements]
    rfl
  · obtain ⟨k, hk, hoffset, -⟩ := Space.exists_offset hf.size_eq hrange
    have hcolumn : f.HasColumn c coords (start + k) :=
      hf.hasColumn_iff.mpr ⟨k, hoffset, by omega, rfl⟩
    have hv : s.values[start + k]? = some s.values[start + k] := List.getElem?_eq_getElem _
    exact ⟨start + k, _, hcolumn, hv, value_of_hasColumn hcolumn hv,
      mem_zip_run ((hplace k coords).mpr hoffset) hk hv⟩

end Solution

namespace Model

variable {m : Model κ} {sizes : List Nat} {i : Nat}

theorem LaidOut.exists_placed_within (h : m.LaidOut sizes) (hf : m.families[i]? = some f) :
    ∃ start n, f.Placed m.catalog start n ∧ start + n < Word.limit ∧ start + n ≤ m.columnCount
      ∧ ∀ s : Solution κ, (sizes.splitLengths s.values)[i]? = some (s.run start n) := by
  have hi := h.lt_length hf
  obtain ⟨start, n, hplaced, hfit⟩ := h.exists_placed hf
  obtain ⟨hstart, hsize⟩ := h.placed hf hi
  cases hplaced.start_eq.symm.trans hstart
  cases hplaced.size_eq.symm.trans hsize
  refine ⟨_, _, hplaced, hfit, ?_, fun s => getElem?_splitLengths s.values hi⟩
  calc (sizes.take i).sum + sizes[i] = (sizes.take (i + 1)).sum := (List.sum_take_succ ..).symm
    _ ≤ (sizes.take sizes.length).sum := List.monotone_sum_take sizes hi
    _ = m.columnCount := by rw [List.take_length, h.columnCount]

theorem LaidOut.mapM_familyValues (h : m.LaidOut sizes) {s : Solution κ}
    (hwithin : m.columnCount ≤ s.values.length) :
    m.families.mapM (s.familyValues m.catalog) = .ok (sizes.splitLengths s.values) := by
  rw [Outcome.mapM_eq_ok_iff, List.forall₂_iff_get]
  refine ⟨by rw [List.length_splitLengths, h.size.length_eq], fun i hi hi' => ?_⟩
  obtain ⟨start, n, hplaced, hfit, hlast, hrun⟩ :=
    h.exists_placed_within (List.getElem?_eq_getElem hi)
  have hvalues := Solution.familyValues_of_placed hplaced hfit (hlast.trans hwithin)
  rw [List.get_eq_getElem, List.get_eq_getElem, hvalues, Except.ok.injEq]
  exact Option.some.inj ((hrun s).symm.trans (List.getElem?_eq_getElem hi'))

/-- In a sealed model a family reads its values off a solution just if its columns lie within the
solution. It then reads the run of values in its columns, pairs it with its elements in row-major
order, and gives each element the value in the element's column. Over a solution that has a value
for each column the runs of all families, one after the other, are the values of the columns. -/
theorem values_of_sealed_model [Scalar κ] {name : Option String} {history : List (Action κ)}
    (hsealed : ((Model.empty name).run history).isSealed = true) (s : Solution κ) :
    let m := (Model.empty name).run history
    (∀ f ∈ m.families, ∃ start n, f.Placed m.catalog start n ∧ start + n ≤ m.columnCount
      ∧ (start + n ≤ s.values.length → s.ReadsBack m.catalog f start n)
      ∧ (s.values.length < start + n →
        (s.familyValues m.catalog f).RefusedAs .invalidIndex
        ∧ (s.elementValues m.catalog f).RefusedAs .invalidIndex))
    ∧ (m.columnCount ≤ s.values.length →
        ∃ runs, m.families.mapM (s.familyValues m.catalog) = .ok runs
          ∧ runs.flatten = s.values.take m.columnCount) := by
  intro m
  obtain ⟨sizes, hlaid⟩ := laidOut_of_sealed hsealed
  refine ⟨fun f hf => ?_, fun hwithin => ⟨_, hlaid.mapM_familyValues hwithin, ?_⟩⟩
  · obtain ⟨i, hi⟩ := List.mem_iff_getElem?.mp hf
    obtain ⟨start, n, hplaced, hfit, hlast, -⟩ := hlaid.exists_placed_within hi
    refine ⟨start, n, hplaced, hlast, Solution.readsBack_of_placed hplaced hfit,
      fun hbeyond => ?_⟩
    have hrefused := Solution.familyValues_of_beyond hplaced hfit hbeyond
    exact ⟨hrefused, hrefused.bind _⟩
  · rw [flatten_splitLengths, hlaid.columnCount]

/-- A solution with all values, and one that is too short for the last family with columns. -/
theorem values_of_hollowHistory :
    let m := (Model.empty none).run (hollowHistory ++ [.sealUp])
    let whole : Solution Rat := ⟨.optimal, [5, 7, 9], 0⟩
    let short : Solution Rat := ⟨.unknown, [5, 7], 0⟩
    m.isSealed = true
      ∧ (∃ runs, m.families.mapM (whole.familyValues m.catalog) = .ok runs
        ∧ runs.flatten = [5, 7, 9])
      ∧ (∃ f ∈ m.families, short.ReadsBack m.catalog f 0 2)
      ∧ ∃ f ∈ m.families, (short.elementValues m.catalog f).RefusedAs .invalidIndex := by
  intro m whole short
  have hsealed : m.isSealed = true := by decide
  obtain ⟨-, hruns⟩ := values_of_sealed_model hsealed whole
  obtain ⟨hfamilies, -⟩ := values_of_sealed_model hsealed short
  refine ⟨hsealed, hruns (by decide), ?_, ?_⟩
  · have hx : ⟨"x", [⟨"A", .labelled⟩], .free, some 0⟩ ∈ m.families :=
      List.mem_of_getElem? (i := 1) rfl
    obtain ⟨start, n, hplaced, -, hwithin, -⟩ := hfamilies _ hx
    cases hplaced.start_eq
    cases hplaced.size_eq
    exact ⟨_, hx, hwithin (by decide)⟩
  · have hlast : ⟨"x3", [], .free, some 2⟩ ∈ m.families := List.mem_of_getElem? (i := 3) rfl
    obtain ⟨start, n, hplaced, -, -, hbeyond⟩ := hfamilies _ hlast
    cases hplaced.start_eq
    cases hplaced.size_eq
    exact ⟨_, hlast, (hbeyond (by decide)).2⟩

end Model

end LinearProgram
