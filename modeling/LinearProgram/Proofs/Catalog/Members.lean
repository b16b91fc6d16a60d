import LinearProgram.Proofs.Space

/-!
Members of a dimension at different times. Labels only come at the end of a set, and the members of
a range follow from its first element and its size; so a dimension that has the size it had before
has the members it had before, at the same positions.
-/

namespace LinearProgram

namespace Catalog

variable {c c' c'' : Catalog} {d : Dimension} {l : String} {k n : Nat}

/-- Two catalogs give a dimension the same members at the same positions. -/
structure Agree (c c' : Catalog) (d : Dimension) : Prop where
  size : c'.size d = c.size d
  label : ∀ k, c'.label d k = c.label d k

/-- Labels have only been appended. -/
def Extends (c c' : Catalog) : Prop := ∀ d, c.labels d <+: c'.labels d

theorem Agree.refl (c : Catalog) (d : Dimension) : c.Agree c d := ⟨rfl, fun _ => rfl⟩

theorem Agree.symm (h : c.Agree c' d) : c'.Agree c d := ⟨h.size.symm, fun k => (h.label k).symm⟩

theorem Agree.trans (h : c.Agree c' d) (h' : c'.Agree c'' d) : c.Agree c'' d :=
  ⟨h'.size.trans h.size, fun k => (h'.label k).trans (h.label k)⟩

theorem agree_freeze (c : Catalog) (d : Dimension) : c.Agree c.freeze d := ⟨rfl, fun _ => rfl⟩

theorem Extends.refl (c : Catalog) : c.Extends c := fun _ => List.prefix_refl _

theorem Extends.trans (h : c.Extends c') (h' : c'.Extends c'') : c.Extends c'' :=
  fun d => (h d).trans (h' d)

theorem extends_addLabel (h : c.addLabel d l = .ok (k, c')) : c.Extends c' :=
  fun e => ⟨_, (labels_addLabel h e).symm⟩

theorem Grows.extends (h : c.Grows c') : c.Extends c' := by
  induction h with
  | refl => exact .refl c
  | label _ hadd ih => exact ih.trans (extends_addLabel hadd)

theorem extends_setLimit {marker : Marker} {v : Int} (h : c.setLimit marker v = .ok c') :
    c.Extends c' := by
  obtain ⟨-, rfl⟩ := setLimit_eq_ok h
  exact .refl c

theorem label_of_labelled (hextent : d.extent = .labelled) (hk : k < (c.labels d).length) :
    c.label d k = .ok (c.labels d)[k] :=
  (label_eq_ok_iff hextent).mpr (List.getElem?_eq_getElem hk)

theorem label_of_range {lower : Int} {e : RangeEnd} (hextent : d.extent = .range lower e)
    (hsize : c.size d = .ok n) :
    c.label d k = if n ≤ k then .refuse (.outsideSet k d.name n) else toString <$> d.value k := by
  rw [label, hsize, hextent]
  rfl

theorem agree_of_labels (hextent : d.extent = .labelled) (h : c'.labels d = c.labels d) :
    c.Agree c' d := by
  have hsize : c'.size d = c.size d := by rw [size_of_labelled hextent, size_of_labelled hextent, h]
  refine ⟨hsize, fun k => ?_⟩
  rw [label, label, hsize, hextent]
  simp only [LabelSet.label, LabelSet.size, labelSet, h]

/-- The labels of a set are its own, and the members of a range follow from the limits. -/
theorem agree_of_data (hlabels : ∀ d : Dimension, d.extent = .labelled → c'.labels d = c.labels d)
    (hlimits : ∀ marker, c'.limit? marker = c.limit? marker) (d : Dimension) : c.Agree c' d := by
  cases hextent : d.extent with
  | labelled => exact agree_of_labels hextent (hlabels d hextent)
  | range lower e =>
      have hupper : c'.upper d e = c.upper d e := by
        cases e with
        | fixed upper => rfl
        | limit marker => rw [upper, upper, hlimits]
      have hsize : c'.size d = c.size d := by
        unfold size
        rw [hextent]
        dsimp only
        rw [hupper]
      refine ⟨hsize, fun k => ?_⟩
      unfold label
      rw [hsize, hextent]

/-- A dimension that has the size that it had has the members that it had. -/
theorem Extends.agree (h : c.Extends c') (hsize : c.size d = .ok n)
    (hsize' : c'.size d = .ok n) : c.Agree c' d := by
  cases hextent : d.extent with
  | labelled =>
      rw [size_of_labelled hextent, Except.ok.injEq] at hsize hsize'
      apply agree_of_labels hextent
      exact ((h d).eq_of_length (hsize.trans hsize'.symm)).symm
  | range lower e =>
      refine ⟨hsize'.trans hsize.symm, fun k => ?_⟩
      rw [label_of_range hextent hsize, label_of_range hextent hsize']

/-! ### Labels lead to the same positions -/

theorem Agree.labels_eq (h : c.Agree c' d) (hextent : d.extent = .labelled) :
    c'.labels d = c.labels d := by
  have hlength := h.size
  rw [size_of_labelled hextent, size_of_labelled hextent, Except.ok.injEq] at hlength
  apply List.ext_getElem hlength
  intro k hk hk'
  have hlabel := h.label k
  rw [label_of_labelled hextent hk, label_of_labelled hextent hk', Except.ok.injEq] at hlabel
  exact hlabel

theorem upper_of_size {lower : Int} {e : RangeEnd} (hextent : d.extent = .range lower e)
    (hsize : c.size d = .ok n) (hn : 0 < n) : c.upper d e = .ok (lower + n - 1) := by
  unfold size at hsize
  rw [hextent] at hsize
  obtain ⟨upper, hupper, hrest⟩ := Outcome.bind_eq_ok_iff.mp hsize
  split at hrest
  · cases hrest
    omega
  · obtain ⟨span, hspan, hrest⟩ := Outcome.bind_eq_ok_iff.mp hrest
    obtain ⟨total, htotal, heq⟩ := Outcome.bind_eq_ok_iff.mp hrest
    obtain ⟨-, rfl⟩ := Signed.sub_eq_ok_iff.mp hspan
    obtain ⟨-, rfl⟩ := Signed.add_eq_ok_iff.mp htotal
    cases heq
    rw [hupper]
    congr 1
    omega

theorem pos_of_indexOf {lower : Int} {e : RangeEnd} (hextent : d.extent = .range lower e)
    (hsize : c.size d = .ok n) (hindex : c.indexOf d l = .ok k) : 0 < n := by
  obtain ⟨upper, v, hupper, -, hlast, -, hvalue⟩ :=
    (indexOf_eq_ok_iff_of_range hextent).mp hindex
  unfold size at hsize
  rw [hextent] at hsize
  simp only [hupper, Outcome.ok_bind] at hsize
  rw [if_neg (by omega)] at hsize
  obtain ⟨span, hspan, hrest⟩ := Outcome.bind_eq_ok_iff.mp hsize
  obtain ⟨total, htotal, heq⟩ := Outcome.bind_eq_ok_iff.mp hrest
  obtain ⟨-, rfl⟩ := Signed.sub_eq_ok_iff.mp hspan
  obtain ⟨-, rfl⟩ := Signed.add_eq_ok_iff.mp htotal
  cases heq
  omega

theorem lt_size_of_indexOf (hsize : c.size d = .ok n) (hindex : c.indexOf d l = .ok k) :
    k < n := by
  cases hextent : d.extent with
  | labelled =>
      rw [size_of_labelled hextent, Except.ok.injEq] at hsize
      obtain ⟨hk, -⟩ := List.idxOf?_eq_some_iff.mp ((indexOf_eq_ok_iff hextent).mp hindex)
      exact hsize ▸ hk
  | range lower e =>
      obtain ⟨upper, v, hupper, -, hlast, -, hvalue⟩ :=
        (indexOf_eq_ok_iff_of_range hextent).mp hindex
      have hend := upper_of_size hextent hsize (pos_of_indexOf hextent hsize hindex)
      cases hupper.symm.trans hend
      omega

theorem Agree.indexOf (h : c.Agree c' d) (hsize : c.size d = .ok n)
    (hindex : c.indexOf d l = .ok k) : c'.indexOf d l = .ok k := by
  rw [← hindex]
  cases hextent : d.extent with
  | labelled =>
      have hlabels := h.labels_eq hextent
      unfold Catalog.indexOf
      simp only [hextent, labelSet, hlabels]
  | range lower e =>
      have hn := pos_of_indexOf hextent hsize hindex
      have hupper := upper_of_size hextent hsize hn
      have hupper' := upper_of_size hextent (h.size.trans hsize) hn
      unfold Catalog.indexOf
      simp only [hextent, hupper, hupper']

end Catalog

/-! ### Spaces whose dimensions keep their members -/

namespace Space

variable {c c' : Catalog} {s : Space} {sizes : Shape} {labels : List String} {coords : List Nat}

/-- Two catalogs give all dimensions of a space the same members. -/
def Agree (c c' : Catalog) (s : Space) : Prop := ∀ d ∈ s, c.Agree c' d

theorem Agree.sizes_eq (h : s.Agree c c') : s.sizes c' = s.sizes c := by
  induction s with
  | nil => rfl
  | cons d s ih =>
      obtain ⟨hd, hs⟩ := List.forall_mem_cons.mp h
      have hrest := ih hs
      unfold sizes at hrest ⊢
      rw [List.mapM_cons, List.mapM_cons, hd.size, hrest]

theorem Agree.size_eq (h : s.Agree c c') : s.size c' = s.size c := by
  rw [size, h.sizes_eq, size]

theorem Agree.offset_eq (h : s.Agree c c') : s.offset c' coords = s.offset c coords := by
  rw [offset, h.sizes_eq, offset]

theorem Agree.ofOffset_eq (h : s.Agree c c') (k : Nat) : s.ofOffset c' k = s.ofOffset c k := by
  rw [ofOffset, h.sizes_eq, ofOffset]

theorem Agree.labels_eq (h : s.Agree c c') : s.labels c' coords = s.labels c coords := by
  induction s generalizing coords with
  | nil => rfl
  | cons d s ih =>
      obtain ⟨hd, hs⟩ := List.forall_mem_cons.mp h
      cases coords with
      | nil => rfl
      | cons i coords => rw [labels_cons, labels_cons, hd.label, ih hs]

theorem inRange_of_resolve (hsizes : s.sizes c = .ok sizes) (hlength : labels.length = s.length)
    (hresolve : s.resolve c labels = .ok coords) : s.InRange c coords := by
  rw [sizes_eq_ok_iff] at hsizes
  induction hsizes generalizing labels coords with
  | nil =>
      rw [List.length_eq_zero_iff.mp hlength] at hresolve
      cases hresolve
      exact .nil
  | cons hsize _ ih =>
      cases labels with
      | nil => cases hlength
      | cons l ls =>
          rw [resolve_cons] at hresolve
          obtain ⟨k, hk, hrest⟩ := Outcome.bind_eq_ok_iff.mp hresolve
          obtain ⟨ks, hks, heq⟩ := Outcome.bind_eq_ok_iff.mp hrest
          cases heq
          exact .cons ⟨_, hsize, Catalog.lt_size_of_indexOf hsize hk⟩
            (ih (Nat.succ.inj hlength) hks)

theorem Agree.resolve (h : s.Agree c c') (hsizes : s.sizes c = .ok sizes)
    (hresolve : s.resolve c labels = .ok coords) : s.resolve c' labels = .ok coords := by
  rw [sizes_eq_ok_iff] at hsizes
  induction hsizes generalizing labels coords with
  | nil => exact hresolve
  | cons hsize _ ih =>
      obtain ⟨hd, hs⟩ := List.forall_mem_cons.mp h
      cases labels with
      | nil => exact hresolve
      | cons l ls =>
          rw [resolve_cons] at hresolve ⊢
          obtain ⟨k, hk, hrest⟩ := Outcome.bind_eq_ok_iff.mp hresolve
          obtain ⟨ks, hks, heq⟩ := Outcome.bind_eq_ok_iff.mp hrest
          rw [hd.indexOf hsize hk, Outcome.ok_bind, ih hs hks]
          exact heq

/-- Where labels have only been appended, a space with the sizes that it had agrees with what it
was. -/
theorem agree_of_sizes (h : c.Extends c') (hsizes : s.sizes c = .ok sizes)
    (hsizes' : s.sizes c' = .ok sizes) : s.Agree c c' := by
  rw [sizes_eq_ok_iff] at hsizes hsizes'
  induction hsizes with
  | nil =>
      intro d hd
      cases hd
  | cons hsize _ ih =>
      cases hsizes' with
      | cons hsize' hrest => exact List.forall_mem_cons.mpr ⟨h.agree hsize hsize', ih hrest⟩

end Space

end LinearProgram
