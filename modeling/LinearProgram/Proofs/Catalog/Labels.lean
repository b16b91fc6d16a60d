import LinearProgram.Proofs.Catalog.Growth

/-!
Labels and positions. Within the size of a dimension every position has a label, and the label leads
back to the position, whether it is one of a set or the decimal form of an integer.
-/

namespace LinearProgram

/-- The integers that a dimension is made of. -/
def Dimension.integers (d : Dimension) : List Int :=
  match d.extent with
  | .labelled => []
  | .range lower (.fixed upper) => [lower, upper]
  | .range lower (.limit _) => [lower]

/-- The integers that a dimension is made of are signed words. -/
def Dimension.InWords (d : Dimension) : Prop := ∀ v ∈ d.integers, Signed.fits v = true

instance (d : Dimension) : Decidable d.InWords :=
  inferInstanceAs (Decidable (∀ v ∈ d.integers, Signed.fits v = true))

namespace Dimension

variable {d : Dimension} {lower : Int} {e : RangeEnd} {k : Nat}

theorem lower_of_range (hextent : d.extent = .range lower e) : d.lower = .ok lower := by
  rw [Dimension.lower, hextent]

theorem value_of_fits (hextent : d.extent = .range lower e) (hk : 2 * k < Word.limit)
    (hfits : Signed.fits (lower + k) = true) : d.value k = .ok (lower + k) := by
  rw [value, lower_of_range hextent, Outcome.ok_bind, Word.toSigned_of_lt hk]
  exact Signed.add_eq_ok_iff.mpr ⟨hfits, rfl⟩

end Dimension

/-- Where nothing stands twice, an element stands just at its first place. -/
theorem idxOf?_eq_some_iff_getElem? {xs : List String} (h : xs.Nodup) {l : String} {k : Nat} :
    xs.idxOf? l = some k ↔ xs[k]? = some l := by
  rw [List.idxOf?_eq_some_iff, List.getElem?_eq_some_iff]
  constructor
  · rintro ⟨hk, heq, -⟩
    exact ⟨hk, heq⟩
  · rintro ⟨hk, rfl⟩
    refine ⟨hk, rfl, fun i hi hsame => ?_⟩
    have heq := h.getElem_inj_iff.mp hsame
    omega

namespace Catalog

variable {c : Catalog} {d : Dimension} {k n : Nat}

/-- The values of the limits are signed words. -/
def InWords (c : Catalog) : Prop := ∀ p ∈ c.limits, Signed.fits p.2 = true

instance (c : Catalog) : Decidable c.InWords :=
  inferInstanceAs (Decidable (∀ p ∈ c.limits, Signed.fits p.2 = true))

theorem size_of_labelled (h : d.extent = .labelled) : c.size d = .ok (c.labels d).length := by
  unfold size
  rw [h]
  rfl

theorem lower_fits {lower : Int} {e : RangeEnd} (hd : d.InWords)
    (hextent : d.extent = .range lower e) : Signed.fits lower = true := by
  apply hd
  unfold Dimension.integers
  rw [hextent]
  cases e with
  | fixed upper => exact List.mem_cons_self
  | limit marker => exact List.mem_cons_self

theorem upper_fits {lower v : Int} {e : RangeEnd} (hc : c.InWords) (hd : d.InWords)
    (hextent : d.extent = .range lower e) (hupper : c.upper d e = .ok v) :
    Signed.fits v = true := by
  unfold upper at hupper
  split at hupper
  · cases hupper
    apply hd
    rw [Dimension.integers, hextent]
    exact List.mem_cons_of_mem _ List.mem_cons_self
  · split at hupper
    · rename_i hlimit
      cases hupper
      exact hc _ (Keyed.mem_of_find? hlimit)
    · cases hupper

theorem size_of_range {lower : Int} {e : RangeEnd} (hextent : d.extent = .range lower e)
    (hsize : c.size d = .ok n) (hk : k < n) :
    ∃ upper, c.upper d e = .ok upper ∧ Signed.fits (upper - lower + 1) ∧ lower + k ≤ upper := by
  unfold size at hsize
  rw [hextent] at hsize
  obtain ⟨upper, hupper, hrest⟩ := Outcome.bind_eq_ok_iff.mp hsize
  refine ⟨upper, hupper, ?_⟩
  split at hrest
  · cases hrest
    omega
  · obtain ⟨span, hspan, hrest⟩ := Outcome.bind_eq_ok_iff.mp hrest
    obtain ⟨total, htotal, heq⟩ := Outcome.bind_eq_ok_iff.mp hrest
    obtain ⟨-, rfl⟩ := Signed.sub_eq_ok_iff.mp hspan
    obtain ⟨hfits, rfl⟩ := Signed.add_eq_ok_iff.mp htotal
    cases heq
    exact ⟨hfits, by omega⟩

theorem indexOf_eq_ok_iff (hextent : d.extent = .labelled) {l : String} :
    c.indexOf d l = .ok k ↔ (c.labels d).idxOf? l = some k := by
  unfold indexOf
  rw [hextent]
  dsimp only [LabelSet.indexOf, labelSet]
  split
  · rename_i i hfound
    rw [hfound, Except.ok.injEq, Option.some.injEq]
  · rename_i hnone
    rw [hnone]
    exact iff_of_false (Outcome.refuse_ne_ok _ _) (by simp)

theorem label_eq_ok_iff (hextent : d.extent = .labelled) {l : String} :
    c.label d k = .ok l ↔ (c.labels d)[k]? = some l := by
  rw [label, size_of_labelled hextent, Outcome.ok_bind, hextent]
  by_cases hk : (c.labels d).length ≤ k
  · rw [if_pos hk, List.getElem?_eq_none hk]
    exact iff_of_false (Outcome.refuse_ne_ok _ _) (by simp)
  · rw [if_neg hk]
    dsimp only [LabelSet.label, labelSet]
    rw [List.getElem?_eq_getElem (Nat.lt_of_not_le hk)]
    dsimp only
    rw [Except.ok.injEq, Option.some.injEq]

/-- In a set, the offset of a label is the one that has it for its label. -/
theorem indexOf_eq_ok_iff_label (hc : c.Distinct) (hextent : d.extent = .labelled) {l : String} :
    c.indexOf d l = .ok k ↔ c.label d k = .ok l := by
  rw [indexOf_eq_ok_iff hextent, label_eq_ok_iff hextent, idxOf?_eq_some_iff_getElem? (hc d)]

theorem indexOf_label_of_labelled (hc : c.Distinct) (hextent : d.extent = .labelled)
    (hsize : c.size d = .ok n) (hk : k < n) :
    ∃ l, c.label d k = .ok l ∧ c.indexOf d l = .ok k := by
  rw [size_of_labelled hextent, Except.ok.injEq] at hsize
  have hlabel : c.label d k = .ok (c.labels d)[k] :=
    (label_eq_ok_iff hextent).mpr (List.getElem?_eq_getElem (hsize ▸ hk))
  exact ⟨_, hlabel, (indexOf_eq_ok_iff_label hc hextent).mpr hlabel⟩

/-- A label of a range is read as an integer between the ends of the range. -/
theorem indexOf_eq_ok_iff_of_range {lower : Int} {e : RangeEnd}
    (hextent : d.extent = .range lower e) {l : String} : c.indexOf d l = .ok k
      ↔ ∃ upper v, c.upper d e = .ok upper ∧ Text.integer? l = some v ∧ v ≤ upper
        ∧ Signed.fits k = true ∧ lower + k = v := by
  unfold indexOf
  rw [hextent]
  dsimp only
  rw [Outcome.bind_eq_ok_iff]
  constructor
  · rintro ⟨upper, hupper, hrest⟩
    split at hrest
    · cases hrest
    rename_i v hv
    split at hrest
    · cases hrest
    obtain ⟨span, hspan, heq⟩ := Outcome.bind_eq_ok_iff.mp hrest
    obtain ⟨hfits, rfl⟩ := Signed.sub_eq_ok_iff.mp hspan
    obtain rfl := Except.ok.inj heq
    rw [Int.toNat_of_nonneg (by omega)]
    exact ⟨upper, v, hupper, hv, by omega, hfits, by omega⟩
  · rintro ⟨upper, v, hupper, hv, hlast, hfits, rfl⟩
    refine ⟨upper, hupper, ?_⟩
    simp only [hv]
    rw [if_neg (by omega), Signed.sub_add_left hfits, Outcome.ok_bind, Int.toNat_natCast]
    rfl

/-- Within the size of a range a position stands for an integer, which is a signed word. -/
theorem value_of_range (hc : c.InWords) (hd : d.InWords) {lower : Int} {e : RangeEnd}
    (hextent : d.extent = .range lower e) (hsize : c.size d = .ok n) (hk : k < n) :
    Signed.fits (lower + k) = true ∧ d.value k = .ok (lower + k) := by
  obtain ⟨upper, hupper, hspan, hlast⟩ := size_of_range hextent hsize hk
  have hlower := lower_fits hd hextent
  have hupper' := upper_fits hc hd hextent hupper
  rw [Signed.fits_iff] at hspan hlower hupper'
  have hvalue : Signed.fits (lower + k) = true := Signed.fits_iff.mpr (by omega)
  exact ⟨hvalue, Dimension.value_of_fits hextent (by omega) hvalue⟩

theorem label_of_value (hc : c.InWords) (hd : d.InWords) {lower : Int} {e : RangeEnd}
    (hextent : d.extent = .range lower e) (hsize : c.size d = .ok n) (hk : k < n) :
    c.label d k = .ok (toString (lower + k : Int)) := by
  obtain ⟨-, hvalue⟩ := value_of_range hc hd hextent hsize hk
  rw [label, hsize, Outcome.ok_bind, if_neg (by omega), hextent]
  simp only [hvalue]
  rfl

theorem indexOf_label_of_range (hc : c.InWords) (hd : d.InWords) {lower : Int} {e : RangeEnd}
    (hextent : d.extent = .range lower e) (hsize : c.size d = .ok n) (hk : k < n) :
    ∃ l, c.label d k = .ok l ∧ c.indexOf d l = .ok k := by
  obtain ⟨upper, hupper, hspan, hlast⟩ := size_of_range hextent hsize hk
  obtain ⟨hvalue, -⟩ := value_of_range hc hd hextent hsize hk
  rw [Signed.fits_iff] at hspan
  have hoffset : Signed.fits k = true := Signed.fits_iff.mpr (by omega)
  refine ⟨_, label_of_value hc hd hextent hsize hk, ?_⟩
  exact (indexOf_eq_ok_iff_of_range hextent).mpr
    ⟨upper, _, hupper, Text.integer?_toString hvalue, hlast, hoffset, rfl⟩

/-- Within the size of a dimension every position has a label. -/
theorem exists_label (hc : c.InWords) (hd : d.InWords) (hsize : c.size d = .ok n) (hk : k < n) :
    ∃ l, c.label d k = .ok l := by
  cases hextent : d.extent with
  | labelled =>
      rw [size_of_labelled hextent, Except.ok.injEq] at hsize
      exact ⟨_, (label_eq_ok_iff hextent).mpr (List.getElem?_eq_getElem (hsize ▸ hk))⟩
  | range lower e => exact ⟨_, label_of_value hc hd hextent hsize hk⟩

theorem indexOf_label (hdistinct : c.Distinct) (hc : c.InWords) (hd : d.InWords)
    (hsize : c.size d = .ok n) (hk : k < n) :
    ∃ l, c.label d k = .ok l ∧ c.indexOf d l = .ok k := by
  cases hextent : d.extent with
  | labelled => exact indexOf_label_of_labelled hdistinct hextent hsize hk
  | range lower e => exact indexOf_label_of_range hc hd hextent hsize hk

end Catalog

end LinearProgram
