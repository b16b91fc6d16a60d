import LinearProgram.Catalog
import LinearProgram.Proofs.Outcome
import Mathlib.Data.List.Nodup

/-!
How a catalog grows. Labels are added and limits set while it is open; a frozen catalog stays what
it is. The labels of a dimension never repeat.
-/

namespace LinearProgram.Catalog

/-- What labels, added one after another, make of a catalog. -/
inductive Grows (c : Catalog) : Catalog → Prop
  | refl : Grows c c
  | label {c' c'' : Catalog} {d : Dimension} {l : String} {k : Nat} (h : Grows c c')
      (hadd : c'.addLabel d l = .ok (k, c'')) : Grows c c''

/-- No dimension has a label twice. -/
def Distinct (c : Catalog) : Prop := ∀ d, (c.labels d).Nodup

variable {c c' : Catalog} {d : Dimension} {l : String} {k : Nat}
  {marker : Marker} {v : Int}

theorem addLabel_eq_ok (h : c.addLabel d l = .ok (k, c')) :
    c.frozen = false ∧ d.extent = .labelled ∧ l ∉ c.labels d ∧ k = (c.labels d).length
      ∧ c' = { c with sets := Keyed.put d (c.labels d ++ [l]) c.sets } := by
  unfold addLabel at h
  split at h
  · cases h
  rename_i hfrozen
  split at h
  · cases h
  rename_i hextent
  unfold LabelSet.add at h
  split at h
  · cases h
  rename_i hnew
  cases h
  exact ⟨by simpa using hfrozen, hextent, hnew, rfl, rfl⟩

theorem setLimit_eq_ok (h : c.setLimit marker v = .ok c') :
    c.frozen = false ∧ c' = { c with limits := Keyed.put marker v c.limits } := by
  unfold setLimit at h
  split at h
  · cases h
  rename_i hfrozen
  cases h
  exact ⟨by simpa using hfrozen, rfl⟩

theorem addLabel_of_new (hopen : c.frozen = false) (hextent : d.extent = .labelled)
    (hnew : l ∉ c.labels d) : c.addLabel d l
      = .ok ((c.labels d).length, { c with sets := Keyed.put d (c.labels d ++ [l]) c.sets }) := by
  rw [addLabel, hopen, if_neg Bool.false_ne_true, hextent]
  dsimp only
  rw [LabelSet.add, if_neg (by exact hnew)]
  rfl

theorem setLimit_of_open (hopen : c.frozen = false) (marker : Marker) (v : Int) :
    c.setLimit marker v = .ok { c with limits := Keyed.put marker v c.limits } := by
  rw [setLimit, hopen, if_neg Bool.false_ne_true]

theorem addLabel_of_frozen (h : c.frozen = true) (d : Dimension) (l : String) :
    c.addLabel d l = .refuse (.lateLabel l d.name) := by
  rw [addLabel, if_pos h]

theorem setLimit_of_frozen (h : c.frozen = true) (marker : Marker) (v : Int) :
    c.setLimit marker v = .refuse (.lateLimit marker.name) := by
  rw [setLimit, if_pos h]

theorem labels_put_self (c : Catalog) (d : Dimension) (ls : List String) :
    labels { c with sets := Keyed.put d ls c.sets } d = ls := by
  simp [labels, Keyed.find?_put_self]

theorem labels_put_of_ne (c : Catalog) {d e : Dimension} (ls : List String) (h : e ≠ d) :
    labels { c with sets := Keyed.put d ls c.sets } e = c.labels e := by
  simp [labels, Keyed.find?_put_of_ne _ _ h]

theorem labels_addLabel (h : c.addLabel d l = .ok (k, c')) (e : Dimension) :
    c'.labels e = c.labels e ++ if d = e then [l] else [] := by
  obtain ⟨-, -, -, -, rfl⟩ := addLabel_eq_ok h
  by_cases he : d = e
  · subst he
    rw [labels_put_self, if_pos rfl]
  · rw [labels_put_of_ne c _ (Ne.symm he), if_neg he, List.append_nil]

theorem limit?_setLimit (h : c.setLimit marker v = .ok c') (other : Marker) :
    c'.limit? other = if marker = other then some v else c.limit? other := by
  obtain ⟨-, rfl⟩ := setLimit_eq_ok h
  by_cases hother : marker = other
  · subst hother
    rw [if_pos rfl]
    exact Keyed.find?_put_self marker v c.limits
  · rw [if_neg hother]
    exact Keyed.find?_put_of_ne v c.limits (Ne.symm hother)

/-- Sets of one name, and limits of one name, are kept apart. -/
example : (do
      let c := (← empty.addLabel ⟨⟨"A", 1⟩, .labelled⟩ "x").2
      let c ← (← c.setLimit "T" 2).setLimit ⟨"T", 1⟩ 5
      return (c.labels ⟨"A", .labelled⟩, c.limit? "T", c.limit? ⟨"T", 1⟩) : Outcome _)
    = .ok ([], some 2, some 5) := rfl

theorem distinct_empty : empty.Distinct := by
  intro d
  simp [labels, empty, Keyed.find?]

theorem Distinct.addLabel (hc : c.Distinct) (h : c.addLabel d l = .ok (k, c')) : c'.Distinct := by
  obtain ⟨-, -, hnew, -, -⟩ := addLabel_eq_ok h
  intro e
  rw [labels_addLabel h]
  by_cases he : d = e
  · subst he
    rw [if_pos rfl, ← List.concat_eq_append]
    exact (hc d).concat hnew
  · rw [if_neg he, List.append_nil]
    exact hc e

theorem Distinct.setLimit (hc : c.Distinct) (h : c.setLimit marker v = .ok c') : c'.Distinct := by
  obtain ⟨-, rfl⟩ := setLimit_eq_ok h
  exact hc

namespace Grows

theorem trans {a b c : Catalog} (hab : a.Grows b) (hbc : b.Grows c) : a.Grows c := by
  induction hbc with
  | refl => exact hab
  | label _ hadd ih => exact .label ih hadd

theorem frozen_eq (h : c.Grows c') : c'.frozen = c.frozen := by
  induction h with
  | refl => rfl
  | label _ hadd ih =>
      obtain ⟨-, -, -, -, rfl⟩ := addLabel_eq_ok hadd
      exact ih

theorem limits_eq (h : c.Grows c') : c'.limits = c.limits := by
  induction h with
  | refl => rfl
  | label _ hadd ih =>
      obtain ⟨-, -, -, -, rfl⟩ := addLabel_eq_ok hadd
      exact ih

theorem eq_of_frozen (h : c.Grows c') (hfrozen : c.frozen = true) : c' = c := by
  induction h with
  | refl => rfl
  | label _ hadd ih =>
      subst ih
      rw [(addLabel_eq_ok hadd).1] at hfrozen
      cases hfrozen

theorem distinct (h : c.Grows c') (hc : c.Distinct) : c'.Distinct := by
  induction h with
  | refl => exact hc
  | label _ hadd ih => exact ih.addLabel hadd

end Grows

end LinearProgram.Catalog
