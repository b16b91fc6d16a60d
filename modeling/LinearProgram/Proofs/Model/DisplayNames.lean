import LinearProgram.Proofs.Model.Elements
import LinearProgram.Proofs.Space.Labels

/-!
Display names. The name of a column is that of its family and, in brackets, the labels of its
element with commas between them; where nothing stands between the brackets they are left out. The
names of families end before the first bracket, and labels without commas can be told apart, so
that no two columns of a sealed model share a name.
-/

namespace LinearProgram

/-- As many labels without commas can be read off the text that they make. -/
theorem Naming.labels_eq_of_intercalate {ls ls' : List String} (hlength : ls.length = ls'.length)
    (hls : ∀ l ∈ ls, ',' ∉ l.toList) (hls' : ∀ l ∈ ls', ',' ∉ l.toList)
    (h : ",".intercalate ls = ",".intercalate ls') : ls = ls' := by
  cases ls with
  | nil => exact (List.length_eq_zero_iff.mp hlength.symm).symm
  | cons l ls =>
      have hne : ls' ≠ [] := by
        rintro rfl
        cases hlength
      rw [← Text.commaParts_intercalate hls (List.cons_ne_nil l ls), h,
        Text.commaParts_intercalate hls' hne]

namespace Model

variable {κ : Type} {m : Model κ} {sizes : List Nat} {f : Family κ} {i j : Nat} {text : String}

/-! ### Names of families -/

theorem names_placeAll (fs : List (Family κ)) (starts : List Nat) :
    (placeAll fs starts).2.map (·.name) = fs.map (·.name) := by
  induction fs generalizing starts with
  | nil => cases starts <;> rfl
  | cons f fs ih =>
      cases starts with
      | nil => rfl
      | cons start starts =>
          rw [placeAll]
          cases hplace : f.place start with
          | error e => rfl
          | ok g =>
              obtain ⟨-, rfl⟩ := Family.place_eq_ok hplace
              exact congrArg (f.name :: ·) (ih starts)

theorem names_sealUp (m : Model κ) :
    m.sealUp.2.families.map (·.name) = m.families.map (·.name) := by
  rcases m.families_sealUp with heq | ⟨starts, heq⟩
  · rw [heq]
  · rw [heq, names_placeAll]

theorem nodup_names_perform (h : (m.families.map (·.name)).Nodup) (a : Action κ) :
    ((m.perform a).2.families.map (·.name)).Nodup := by
  have hstep := m.perform_layoutStep a
  generalize (m.perform a).2 = m' at hstep ⊢
  cases hstep with
  | keep hsame => rwa [hsame.families]
  | limit => exact h
  | declare _ hname =>
      rw [List.map_append, List.map_singleton]
      refine List.nodup_append.mpr ⟨h, List.nodup_singleton _, fun name hmem other hother => ?_⟩
      obtain ⟨g, hg, rfl⟩ := List.mem_map.mp hmem
      rw [List.mem_singleton.mp hother]
      exact hname g hg
  | @place slot start f hf =>
      have hnames : (m.families.set slot { f with start := some start }).map (·.name)
          = m.families.map (·.name) := by
        apply List.ext_getElem?
        intro i
        rw [List.getElem?_map, List.getElem?_map]
        by_cases hi : slot = i
        · subst hi
          rw [List.getElem?_set_self (List.getElem?_eq_some_iff.mp hf).1, hf]
          rfl
        · rw [List.getElem?_set_ne hi]
      rwa [hnames]
  | sealUp => rwa [names_sealUp]

theorem nodup_names_run [Scalar κ] (name : Option String) (history : List (Action κ)) :
    (((Model.empty name).run history).families.map (·.name)).Nodup :=
  run_invariant (P := fun m => (m.families.map (·.name)).Nodup)
    (fun _ a _ h => nodup_names_perform h a) (by simp [Model.empty])

/-- Families of the same name are the same family. -/
theorem place_eq_of_name (h : (m.families.map (·.name)).Nodup) {i' : Nat} {f' : Family κ}
    (hf : m.families[i]? = some f) (hf' : m.families[i']? = some f') (hname : f.name = f'.name) :
    i = i' := by
  have hi : i < (m.families.map (·.name)).length := by
    rw [List.length_map]
    exact (List.getElem?_eq_some_iff.mp hf).1
  refine (List.getElem?_inj hi h).mp ?_
  rw [List.getElem?_map, List.getElem?_map, hf, hf', Option.map_some, Option.map_some, hname]

/-! ### Names of columns -/

theorem LaidOut.columnName_eq (h : m.LaidOut sizes) (hf : m.families[i]? = some f)
    (hj : InBlock sizes i j) (htext : f.labelText m.catalog j = .ok text) :
    m.columnName j = .ok (Naming.titled f.name text) := by
  rw [columnName, h.owner_eq hf hj, Outcome.ok_bind, htext, Outcome.ok_bind]
  rfl

theorem LaidOut.lt_of_columnName (h : m.LaidOut sizes) (hname : m.columnName j = .ok text) :
    j < m.columnCount := by
  by_contra hj
  rw [columnName, h.owner_of_le (Nat.le_of_not_lt hj)] at hname
  cases hname

/-- Column `j` is that of an element of the family in place `i`, and is named after the family and
the labels of the element, which lead back to it. -/
structure NamedAfter (m : Model κ) (j i : Nat) (f : Family κ) (coords : List Nat)
    (labels : List String) : Prop where
  family : m.families[i]? = some f
  inRange : f.space.InRange m.catalog coords
  hasColumn : f.HasColumn m.catalog coords j
  listed : f.space.labels m.catalog coords = .ok labels
  lookup : f.exprAtLabels m.catalog labels = f.exprAt m.catalog coords
  name : m.columnName j = .ok (Naming.titled f.name (",".intercalate labels))

theorem LaidOut.namedAfter [Scalar κ] {coords : List Nat} (h : m.LaidOut sizes) (hm : m.InWords)
    (hdistinct : m.catalog.Distinct) (hf : m.families[i]? = some f)
    (hcolumn : f.HasColumn m.catalog coords j) : ∃ labels, m.NamedAfter j i f coords labels := by
  obtain ⟨start, n, hplaced, -⟩ := h.exists_placed hf
  have hblock : InBlock sizes i j := (h.covers_iff hf).mp (hplaced.covers hcolumn)
  obtain ⟨labels, hlabels, hlookup, htext⟩ := (hplaced.describes (fun _ _ => .ok 0) hdistinct
    hm.limits (hm.spaces f (List.mem_of_getElem? hf)) hcolumn).labels
  have hrange : f.space.InRange m.catalog coords := by
    obtain ⟨x, hx, -⟩ := hcolumn
    exact hplaced.exists_exprAt_iff.mp ⟨_, hx⟩
  exact ⟨labels, hf, hrange, hcolumn, hlabels, hlookup, h.columnName_eq hf hblock htext⟩

theorem LaidOut.exists_namedAfter [Scalar κ] (h : m.LaidOut sizes) (hm : m.InWords)
    (hdistinct : m.catalog.Distinct) (hj : j < m.columnCount) :
    ∃ i f coords labels, m.NamedAfter j i f coords labels := by
  obtain ⟨i, f, hf, hblock⟩ := h.exists_family hj
  obtain ⟨start, n, hplaced, hfit⟩ := h.exists_placed hf
  obtain ⟨coords, hcolumn⟩ := hplaced.exists_element hfit.le ((h.covers_iff hf).mpr hblock)
  obtain ⟨labels, hnamed⟩ := h.namedAfter hm hdistinct hf hcolumn
  exact ⟨i, f, coords, labels, hnamed⟩

/-- Elements of one family with the same labels have the same column. -/
theorem NamedAfter.column_eq {j' : Nat} {coords coords' : List Nat} {labels : List String}
    (h : m.NamedAfter j i f coords labels) (h' : m.NamedAfter j' i f coords' labels) : j = j' := by
  obtain ⟨x, hx, hcolumn⟩ := h.hasColumn
  obtain ⟨x', hx', hcolumn'⟩ := h'.hasColumn
  rw [← h.lookup, h'.lookup, hx'] at hx
  cases hx
  exact Except.ok.inj (hcolumn.symm.trans hcolumn')

/-- In a sealed model, every column has a name. If no family has an opening bracket in its name, and
no label of a set that a family stretches over has a comma, then the names of different columns are
different, whatever other characters there are: labels may be empty or have brackets, and
dimensions may share them. The integers of a model are signed words. -/
theorem columnName_injective [Scalar κ] (name : Option String) {history : List (Action κ)}
    (hwords : ∀ a ∈ history, a.InWords)
    (hsealed : ((Model.empty name).run history).isSealed = true) :
    let m := (Model.empty name).run history
    (∀ j, j < m.columnCount → ∃ called, m.columnName j = .ok called)
      ∧ ((∀ f ∈ m.families, '[' ∉ f.name.toList) →
        (∀ f ∈ m.families, ∀ d ∈ f.space, d.extent = .labelled →
          ∀ l ∈ m.catalog.labels d, ',' ∉ l.toList) →
        ∀ (j j' : Nat) (called : String), m.columnName j = .ok called →
          m.columnName j' = .ok called → j = j') := by
  intro m
  obtain ⟨sizes, hlaid⟩ := laidOut_of_sealed hsealed
  have hnamed {j : Nat} (hj : j < m.columnCount) :=
    hlaid.exists_namedAfter ((inWords_empty name).run hwords) (distinct_run name history) hj
  refine ⟨fun j hj => ?_, fun hfamilies hplain j j' called hj hj' => ?_⟩
  · obtain ⟨i, f, coords, labels, h⟩ := hnamed hj
    exact ⟨_, h.name⟩
  obtain ⟨i, f, coords, labels, h⟩ := hnamed (hlaid.lt_of_columnName hj)
  obtain ⟨i', f', coords', labels', h'⟩ := hnamed (hlaid.lt_of_columnName hj')
  have hf := List.mem_of_getElem? h.family
  have hf' := List.mem_of_getElem? h'.family
  have htitles := Except.ok.inj ((h.name.symm.trans hj).trans (hj'.symm.trans h'.name))
  obtain ⟨hbase, htext⟩ := Naming.titled_inj (hfamilies f hf) (hfamilies f' hf') htitles
  -- the name tells the family, and so the number of labels
  obtain rfl := place_eq_of_name (nodup_names_run name history) h.family h'.family hbase
  cases h.family.symm.trans h'.family
  have hlength : labels.length = labels'.length := by
    rw [Space.length_labels h.inRange h.listed, Space.length_labels h'.inRange h'.listed]
  obtain rfl := Naming.labels_eq_of_intercalate hlength
    (Space.comma_notMem_labels (hplain f hf) h.listed)
    (Space.comma_notMem_labels (hplain f hf) h'.listed) htext
  exact h.column_eq h'

/-- Two sets that share an empty label and one with a bracket, families over one and over both of
them, and one without dimensions. -/
def sharedLabels : List (Action Rat) :=
  [.addLabels ⟨"A", .labelled⟩ ["", "b]", "[x"],
    .addLabels ⟨"B", .labelled⟩ ["", "b]"],
    .declareFamily (some "u") [⟨"A", .labelled⟩] .free,
    .declareFamily (some "v") [⟨"A", .labelled⟩, ⟨"B", .labelled⟩, ⟨"R", .range (-1) (.fixed 0)⟩]
      .free,
    .declareFamily none [] .free,
    .sealUp]

theorem columnName_of_sharedLabels :
    (∀ a ∈ sharedLabels, a.InWords) ∧ ((Model.empty none).run sharedLabels).isSealed = true
      ∧ let m := (Model.empty none).run sharedLabels
        (∀ f ∈ m.families, '[' ∉ f.name.toList)
          ∧ (∀ f ∈ m.families, ∀ d ∈ f.space, d.extent = .labelled →
            ∀ l ∈ m.catalog.labels d, ',' ∉ l.toList)
          ∧ m.columnName 0 = .ok "u" ∧ m.columnName 1 = .ok "u[b]]"
          ∧ (∃ called, m.columnName 15 = .ok called)
          ∧ ∀ (j : Nat) (called : String), m.columnName 3 = .ok called →
            m.columnName j = .ok called → 3 = j := by
  have hwords : ∀ a ∈ sharedLabels, a.InWords := by
    simp only [sharedLabels, List.forall_mem_cons, List.not_mem_nil, Action.InWords,
      false_implies, implies_true, and_true, true_and]
    decide
  have hsealed : ((Model.empty none).run sharedLabels).isSealed = true := by decide
  obtain ⟨hnamed, hinjective⟩ := columnName_injective none hwords hsealed
  have hfamilies : ∀ f ∈ ((Model.empty none).run sharedLabels).families, '[' ∉ f.name.toList := by
    decide
  have hplain : ∀ f ∈ ((Model.empty none).run sharedLabels).families, ∀ d ∈ f.space,
      d.extent = .labelled → ∀ l ∈ ((Model.empty none).run sharedLabels).catalog.labels d,
        ',' ∉ l.toList := by
    decide
  exact ⟨hwords, hsealed, hfamilies, hplain, by decide, by decide, hnamed 15 (by decide),
    hinjective hfamilies hplain 3⟩

end Model

end LinearProgram
