import LinearProgram.Family
import LinearProgram.Proofs.Space

/-!
Families and their columns. The elements of a placed family follow each other from its start on.
Asked about one of these columns the family tells what is so of the element there, and asked about
any other it refuses.
-/

namespace LinearProgram.Family

variable {κ : Type} {c : Catalog} {f : Family κ} {coords : List Nat} {start n k j : Nat}

/-- Column `j` is one of the columns of a family. -/
def Covers (c : Catalog) (j : Nat) (f : Family κ) : Prop :=
  ∃ start n, f.start = some start ∧ f.size c = .ok n ∧ start ≤ j ∧ j < start + n

/-- The variable at some coordinates stands in column `j`. -/
def HasColumn (c : Catalog) (coords : List Nat) (j : Nat) (f : Family κ) : Prop :=
  ∃ x : Variable, f.exprAt c coords = .ok (.var x) ∧ x.column = .ok j

/-- What a family tells about column `j` is so of its element at the given coordinates. -/
structure Describes (read : Reader κ) (c : Catalog) (coords : List Nat) (j : Nat)
    (f : Family κ) : Prop where
  hasColumn : f.HasColumn c coords j
  covers : f.Covers c j
  labels : ∃ labels, f.space.labels c coords = .ok labels
    ∧ f.exprAtLabels c labels = f.exprAt c coords
    ∧ f.labelText c j = .ok (",".intercalate labels)
  lower : f.lowerAt read c j = f.domain.lowerAt read coords
  upper : f.upperAt read c j = f.domain.upperAt read coords

/-- A family refuses whatever it is asked about column `j`. -/
structure Disowns (read : Reader κ) (c : Catalog) (j : Nat) (f : Family κ) : Prop where
  labels : (f.labelText c j).RefusedAs .invalidIndex
  lower : (f.lowerAt read c j).RefusedAs .invalidIndex
  upper : (f.upperAt read c j).RefusedAs .invalidIndex

/-- A family of `n` elements that has its columns from `start` on. -/
structure Placed (c : Catalog) (start n : Nat) (f : Family κ) : Prop where
  start_eq : f.start = some start
  size_eq : f.size c = .ok n

theorem size_lt_limit (h : f.size c = .ok n) : n < Word.limit := by
  obtain ⟨-, -, -, -, hfit⟩ := Space.size_eq_ok h
  exact hfit

theorem exprAtLabels_of_resolve {labels : List String}
    (h : f.space.resolve c labels = .ok coords) :
    f.exprAtLabels c labels = f.exprAt c coords := by
  rw [exprAtLabels, h, Outcome.ok_bind]

namespace Placed

theorem covers_iff (hf : f.Placed c start n) : f.Covers c j ↔ start ≤ j ∧ j < start + n := by
  constructor
  · rintro ⟨start', n', hstart, hsize, hcolumns⟩
    cases hf.start_eq.symm.trans hstart
    cases hf.size_eq.symm.trans hsize
    exact hcolumns
  · intro hcolumns
    exact ⟨start, n, hf.start_eq, hf.size_eq, hcolumns⟩

/-! ### From elements to columns -/

theorem exprAt_eq_ok_iff (hf : f.Placed c start n) {e : Expr κ} :
    f.exprAt c coords = .ok e ↔ ∃ k, f.space.offset c coords = .ok k ∧ .var ⟨start, k⟩ = e := by
  unfold exprAt
  rw [hf.start_eq]
  constructor
  · intro h
    obtain ⟨k, hk, heq⟩ := Outcome.bind_eq_ok_iff.mp h
    cases heq
    exact ⟨k, hk, rfl⟩
  · rintro ⟨k, hk, rfl⟩
    exact Outcome.bind_eq_ok_iff.mpr ⟨k, hk, rfl⟩

theorem exists_exprAt_iff (hf : f.Placed c start n) :
    (∃ e, f.exprAt c coords = .ok e) ↔ f.space.InRange c coords := by
  constructor
  · rintro ⟨e, he⟩
    obtain ⟨k, hk, -⟩ := hf.exprAt_eq_ok_iff.mp he
    exact Space.inRange_of_offset hk
  · intro hrange
    obtain ⟨k, -, hk, -⟩ := Space.exists_offset hf.size_eq hrange
    exact ⟨_, hf.exprAt_eq_ok_iff.mpr ⟨k, hk, rfl⟩⟩

theorem hasColumn_iff (hf : f.Placed c start n) :
    f.HasColumn c coords j
      ↔ ∃ k, f.space.offset c coords = .ok k ∧ start + k < Word.limit ∧ start + k = j := by
  constructor
  · rintro ⟨x, hx, hcolumn⟩
    obtain ⟨k, hk, heq⟩ := hf.exprAt_eq_ok_iff.mp hx
    cases heq
    exact ⟨k, hk, Word.add_eq_ok_iff.mp hcolumn⟩
  · rintro ⟨k, hk, hcolumn⟩
    exact ⟨⟨start, k⟩, hf.exprAt_eq_ok_iff.mpr ⟨k, hk, rfl⟩, Word.add_eq_ok_iff.mpr hcolumn⟩

theorem exists_hasColumn (hf : f.Placed c start n) (hfit : start + n ≤ Word.limit)
    (hrange : f.space.InRange c coords) : ∃ j, f.HasColumn c coords j := by
  obtain ⟨k, hlt, hk, -⟩ := Space.exists_offset hf.size_eq hrange
  exact ⟨start + k, hf.hasColumn_iff.mpr ⟨k, hk, by omega, rfl⟩⟩

theorem covers (hf : f.Placed c start n) (h : f.HasColumn c coords j) : f.Covers c j := by
  obtain ⟨k, hk, -, rfl⟩ := hf.hasColumn_iff.mp h
  obtain ⟨i, hlt, hi, -⟩ := Space.exists_offset hf.size_eq (Space.inRange_of_offset hk)
  cases hk.symm.trans hi
  rw [hf.covers_iff]
  omega

theorem hasColumn_unique {left right : List Nat} (hf : f.Placed c start n)
    (hleft : f.HasColumn c left j) (hright : f.HasColumn c right j) : left = right := by
  obtain ⟨k, hk, -, hcolumn⟩ := hf.hasColumn_iff.mp hleft
  obtain ⟨k', hk', -, hcolumn'⟩ := hf.hasColumn_iff.mp hright
  have hsame : k' = k := by omega
  subst hsame
  exact Space.offset_injective hf.size_eq hk hk'

/-! ### From columns to elements -/

theorem exists_element (hf : f.Placed c start n) (hfit : start + n ≤ Word.limit)
    (h : f.Covers c j) : ∃ coords, f.HasColumn c coords j := by
  obtain ⟨hfirst, hlast⟩ := hf.covers_iff.mp h
  obtain ⟨coords, -, hoffset⟩ := Space.exists_element hf.size_eq (show j - start < n by omega)
  exact ⟨coords, hf.hasColumn_iff.mpr ⟨j - start, hoffset, by omega, by omega⟩⟩

theorem coordsAt (hf : f.Placed c start n) (h : f.HasColumn c coords j) :
    f.coordsAt c j = .ok coords := by
  obtain ⟨k, hk, -, rfl⟩ := hf.hasColumn_iff.mp h
  obtain ⟨i, -, hi, hback⟩ := Space.exists_offset hf.size_eq (Space.inRange_of_offset hk)
  cases hk.symm.trans hi
  unfold Family.coordsAt
  rw [hf.start_eq]
  dsimp only
  rw [if_neg (by omega), Nat.add_sub_cancel_left, hback]

theorem coordsAt_of_not_covers (hf : f.Placed c start n) (h : ¬f.Covers c j) :
    f.coordsAt c j = .refuse (.outsideFamily j f.name) := by
  unfold Family.coordsAt
  rw [hf.start_eq]
  dsimp only
  by_cases hfirst : j < start
  · rw [if_pos hfirst]
  · have hbeyond : n ≤ j - start := by
      by_contra hlast
      apply h
      rw [hf.covers_iff]
      omega
    -- the space refuses the offset, and the family words the refusal its own way
    rw [if_neg hfirst, Space.ofOffset_of_le hf.size_eq hbeyond]
    rfl

theorem describes (hf : f.Placed c start n) (read : Reader κ) (hdistinct : c.Distinct)
    (hc : c.InWords) (hs : ∀ d ∈ f.space, d.InWords) (h : f.HasColumn c coords j) :
    f.Describes read c coords j := by
  have hcoords := hf.coordsAt h
  have hrange : f.space.InRange c coords := by
    obtain ⟨x, hx, -⟩ := h
    exact hf.exists_exprAt_iff.mp ⟨_, hx⟩
  obtain ⟨labels, hlabels, hresolve⟩ := Space.exists_labels hdistinct hc hs hrange
  refine ⟨h, hf.covers h, ⟨labels, hlabels, exprAtLabels_of_resolve hresolve, ?_⟩, ?_, ?_⟩
  · rw [labelText, hcoords, Outcome.ok_bind, hlabels]
    rfl
  · rw [lowerAt, hcoords, Outcome.ok_bind]
  · rw [upperAt, hcoords, Outcome.ok_bind]

theorem disowns (hf : f.Placed c start n) (read : Reader κ) (h : ¬f.Covers c j) :
    f.Disowns read c j := by
  have hcoords : (f.coordsAt c j).RefusedAs .invalidIndex :=
    ⟨_, rfl, hf.coordsAt_of_not_covers h⟩
  exact ⟨hcoords.bind _, hcoords.bind _, hcoords.bind _⟩

end Placed

end LinearProgram.Family
