import LinearProgram.Proofs.Catalog.Labels
import LinearProgram.Proofs.Shape.MixedRadix
import LinearProgram.Space

/-!
Elements of an index space. An element is in range when each coordinate is below the size of its
dimension; elements in range and offsets below the size correspond, and the labels of an element
lead back to it.
-/

namespace LinearProgram.Space

/-- Each coordinate is below the size of its dimension. -/
def InRange (c : Catalog) (s : Space) (coords : List Nat) : Prop :=
  List.Forall₂ (fun d i => ∃ n, c.size d = .ok n ∧ i < n) s coords

variable {c : Catalog} {s : Space} {sizes : Shape} {coords : List Nat} {n k : Nat}

theorem sizes_eq_ok_iff :
    s.sizes c = .ok sizes ↔ List.Forall₂ (fun d n => c.size d = .ok n) s sizes :=
  Outcome.mapM_eq_ok_iff

theorem size_eq_ok (h : s.size c = .ok n) :
    ∃ sizes, s.sizes c = .ok sizes ∧ sizes.count = .ok n ∧ sizes.prod = n ∧ n < Word.limit := by
  obtain ⟨sizes, hsizes, hcount⟩ := Outcome.bind_eq_ok_iff.mp h
  exact ⟨sizes, hsizes, hcount, Shape.count_eq_ok hcount⟩

theorem inRange_iff (h : s.sizes c = .ok sizes) : s.InRange c coords ↔ sizes.Contains coords := by
  rw [sizes_eq_ok_iff] at h
  rw [Shape.contains_iff_forall₂]
  constructor
  · intro hrange
    induction h generalizing coords with
    | nil =>
        cases hrange
        exact .nil
    | cons hd _ ih =>
        cases hrange with
        | cons hi hrest =>
            obtain ⟨n, hn, hlt⟩ := hi
            cases hd.symm.trans hn
            exact .cons hlt (ih hrest)
  · intro hcontains
    induction h generalizing coords with
    | nil =>
        cases hcontains
        exact .nil
    | cons hd _ ih =>
        cases hcontains with
        | cons hlt hrest => exact .cons ⟨_, hd, hlt⟩ (ih hrest)

/-! ### Elements and offsets -/

theorem inRange_of_offset (h : s.offset c coords = .ok k) : s.InRange c coords := by
  obtain ⟨sizes, hsizes, hrest⟩ := Outcome.bind_eq_ok_iff.mp h
  obtain ⟨o, ho, hfound⟩ := Outcome.bind_eq_ok_iff.mp hrest
  rw [inRange_iff hsizes]
  by_contra hcontains
  rw [Shape.offset?, if_neg hcontains] at ho
  cases ho
  cases hfound

theorem offset_eq_linear (hsizes : s.sizes c = .ok sizes) (hfit : sizes.prod < Word.limit)
    (h : sizes.Contains coords) : s.offset c coords = .ok (sizes.linear coords) := by
  have hlinear := Shape.offset_eq_linear h ((Shape.linear_lt_prod h).trans hfit)
  rw [offset, hsizes, Outcome.ok_bind, Shape.offset?, if_pos h, hlinear]
  rfl

theorem ofOffset_linear (hsizes : s.sizes c = .ok sizes) (hcount : sizes.count = .ok n)
    (h : sizes.Contains coords) : s.ofOffset c (sizes.linear coords) = .ok coords := by
  have hbelow := Shape.linear_lt_prod h
  rw [(Shape.count_eq_ok hcount).1] at hbelow
  rw [ofOffset, hsizes, Outcome.ok_bind, hcount, Outcome.ok_bind, if_neg (by omega)]
  exact Shape.decode_linear h

/-- An element in range has an offset below the size, which leads back to the element. -/
theorem exists_offset (hsize : s.size c = .ok n) (h : s.InRange c coords) :
    ∃ k, k < n ∧ s.offset c coords = .ok k ∧ s.ofOffset c k = .ok coords := by
  obtain ⟨sizes, hsizes, hcount, rfl, hfit⟩ := size_eq_ok hsize
  rw [inRange_iff hsizes] at h
  exact ⟨_, Shape.linear_lt_prod h, offset_eq_linear hsizes hfit h,
    ofOffset_linear hsizes hcount h⟩

theorem exists_offsets (hsize : s.size c = .ok n) :
    ∃ offset : List Nat → Nat, ∀ coords, s.InRange c coords →
      s.offset c coords = .ok (offset coords) ∧ offset coords < n := by
  obtain ⟨sizes, hsizes, -, rfl, hfit⟩ := size_eq_ok hsize
  refine ⟨sizes.linear, fun coords h => ?_⟩
  rw [inRange_iff hsizes] at h
  exact ⟨offset_eq_linear hsizes hfit h, Shape.linear_lt_prod h⟩

theorem exists_element (hsize : s.size c = .ok n) (hk : k < n) :
    ∃ coords, s.InRange c coords ∧ s.offset c coords = .ok k := by
  obtain ⟨sizes, hsizes, -, rfl, hfit⟩ := size_eq_ok hsize
  obtain ⟨coords, hcontains, rfl⟩ := Shape.exists_linear_eq hk
  exact ⟨coords, (inRange_iff hsizes).mpr hcontains, offset_eq_linear hsizes hfit hcontains⟩

theorem ofOffset_of_le (hsize : s.size c = .ok n) (hk : n ≤ k) :
    s.ofOffset c k = .refuse (.beyondSpace k n) := by
  obtain ⟨sizes, hsizes, hcount, -, -⟩ := size_eq_ok hsize
  rw [ofOffset, hsizes, Outcome.ok_bind, hcount, Outcome.ok_bind, if_pos hk]

theorem offset_injective {left right : List Nat} (hsize : s.size c = .ok n)
    (hleft : s.offset c left = .ok k) (hright : s.offset c right = .ok k) : left = right := by
  obtain ⟨i, -, hi, hback⟩ := exists_offset hsize (inRange_of_offset hleft)
  obtain ⟨j, -, hj, hback'⟩ := exists_offset hsize (inRange_of_offset hright)
  cases hleft.symm.trans hi
  cases hright.symm.trans hj
  cases hback.symm.trans hback'
  rfl

/-- The elements in range, listed in the order of their offsets. -/
structure Lists (c : Catalog) (s : Space) (elements : List (List Nat)) : Prop where
  mem_iff : ∀ coords, coords ∈ elements ↔ s.InRange c coords
  ascending : elements.Pairwise fun left right =>
    ∀ i j, s.offset c left = .ok i → s.offset c right = .ok j → i < j

/-- Each element stands at the place of its offset. -/
theorem exists_elements_by_offset (hsize : s.size c = .ok n) :
    ∃ elements, s.elements c = .ok elements ∧ elements.length = n
      ∧ ∀ k coords, elements[k]? = some coords ↔ s.offset c coords = .ok k := by
  obtain ⟨sizes, hsizes, -, rfl, hfit⟩ := size_eq_ok hsize
  refine ⟨sizes.grid, ?_, sizes.length_grid, fun k coords => ?_⟩
  · rw [elements, hsizes, Outcome.ok_bind, Shape.coords_eq_grid]
    rfl
  · rw [Shape.getElem?_grid_iff]
    constructor
    · rintro ⟨hcontains, rfl⟩
      exact offset_eq_linear hsizes hfit hcontains
    · intro hk
      have hcontains : sizes.Contains coords := (inRange_iff hsizes).mp (inRange_of_offset hk)
      rw [offset_eq_linear hsizes hfit hcontains, Except.ok.injEq] at hk
      exact ⟨hcontains, hk⟩

theorem lists_of_offsets {elements : List (List Nat)} (hsize : s.size c = .ok n)
    (hplace : ∀ k coords, elements[k]? = some coords ↔ s.offset c coords = .ok k) :
    s.Lists c elements := by
  constructor
  · intro coords
    simp only [List.mem_iff_getElem?, hplace]
    constructor
    · rintro ⟨k, hk⟩
      exact inRange_of_offset hk
    · intro hrange
      obtain ⟨k, -, hk, -⟩ := exists_offset hsize hrange
      exact ⟨k, hk⟩
  · rw [List.pairwise_iff_getElem]
    intro i j hi hj hlt i' j' hi' hj'
    cases hi'.symm.trans ((hplace i _).mp (List.getElem?_eq_getElem hi))
    cases hj'.symm.trans ((hplace j _).mp (List.getElem?_eq_getElem hj))
    exact hlt

theorem exists_elements (hsize : s.size c = .ok n) :
    ∃ elements, s.elements c = .ok elements ∧ s.Lists c elements := by
  obtain ⟨elements, helements, -, hplace⟩ := exists_elements_by_offset hsize
  exact ⟨elements, helements, lists_of_offsets hsize hplace⟩

/-! ### Elements and labels -/

theorem labels_cons (c : Catalog) (d : Dimension) (s : Space) (i : Nat) (coords : List Nat) :
    labels (d :: s) c (i :: coords)
      = do return (← c.label d i) :: (← labels s c coords) := by
  rw [labels, List.zip_cons_cons, List.mapM_cons]
  rfl

theorem resolve_cons (c : Catalog) (d : Dimension) (s : Space) (l : String) (ls : List String) :
    resolve (d :: s) c (l :: ls) = do return (← c.indexOf d l) :: (← resolve s c ls) := by
  rw [resolve, List.zip_cons_cons, List.mapM_cons]
  rfl

theorem length_labels {labels : List String} (h : s.InRange c coords)
    (hlabels : s.labels c coords = .ok labels) : labels.length = s.length := by
  have hzip := (Outcome.mapM_eq_ok_iff.mp hlabels).length_eq
  rw [← hzip, List.length_zip, List.Forall₂.length_eq h, Nat.min_self]

theorem exists_labels_of_inRange (hc : c.InWords) (hs : ∀ d ∈ s, d.InWords)
    (h : s.InRange c coords) : ∃ labels, s.labels c coords = .ok labels := by
  induction h with
  | nil => exact ⟨[], rfl⟩
  | cons hi _ ih =>
      obtain ⟨hd, hrest⟩ := List.forall_mem_cons.mp hs
      obtain ⟨n, hn, hlt⟩ := hi
      obtain ⟨l, hlabel⟩ := Catalog.exists_label hc hd hn hlt
      obtain ⟨ls, hlabels⟩ := ih hrest
      exact ⟨l :: ls, by rw [labels_cons, hlabel, hlabels]; rfl⟩

theorem exists_labels (hdistinct : c.Distinct) (hc : c.InWords) (hs : ∀ d ∈ s, d.InWords)
    (h : s.InRange c coords) :
    ∃ labels, s.labels c coords = .ok labels ∧ s.resolve c labels = .ok coords := by
  induction h with
  | nil => exact ⟨[], rfl, rfl⟩
  | cons hi _ ih =>
      obtain ⟨hd, hrest⟩ := List.forall_mem_cons.mp hs
      obtain ⟨n, hn, hlt⟩ := hi
      obtain ⟨l, hlabel, hindex⟩ := Catalog.indexOf_label hdistinct hc hd hn hlt
      obtain ⟨ls, hlabels, hresolve⟩ := ih hrest
      refine ⟨l :: ls, ?_, ?_⟩
      · rw [labels_cons, hlabel, hlabels]
        rfl
      · rw [resolve_cons, hindex, hresolve]
        rfl

end LinearProgram.Space
