import LinearProgram.Proofs.Model.Layout
import LinearProgram.Proofs.Model.Words

/-!
Sealing after any history, also one that has placed families by hand. Such a family makes every
later sealing fail, so a model that is sealed has been laid out by its sealing.
-/

namespace LinearProgram.Model

variable {κ : Type} {m : Model κ}

/-- Before sealing there are no columns, and index data is accepted. -/
structure Unsealed (m : Model κ) : Prop where
  isSealed : m.isSealed = false
  frozen : m.catalog.frozen = false
  ends : m.ends = []

theorem unplaced_of_placeAll {fs gs : List (Family κ)} {starts : List Nat}
    (hlength : fs.length ≤ starts.length) (h : placeAll fs starts = (.ok (), gs)) :
    ∀ f ∈ fs, f.start = none := by
  induction fs generalizing starts gs with
  | nil =>
      intro f hf
      cases hf
  | cons f fs ih =>
      cases starts with
      | nil => simp at hlength
      | cons start starts =>
          rw [placeAll] at h
          cases hplace : f.place start with
          | error e =>
              rw [hplace] at h
              cases h
          | ok g =>
              rw [hplace, Prod.mk.injEq] at h
              have hrest : placeAll fs starts = (.ok (), (placeAll fs starts).2) :=
                Prod.ext h.1 rfl
              exact List.forall_mem_cons.mpr
                ⟨(Family.place_eq_ok hplace).1, ih (by simpa using hlength) hrest⟩

theorem length_le_of_layout {ends : List Nat} (h : m.layout = .ok ends) :
    m.families.length ≤ (0 :: ends).length := by
  obtain ⟨sizes, hsizes, rfl, -⟩ := layout_eq_ok h
  rw [List.length_cons, length_totals, hsizes.length_eq]
  exact Nat.le_succ _

/-- A sealing that succeeds finds no family placed. -/
theorem Unsealed.open_of_sealUp (h : m.Unsealed) (hseal : m.sealUp.1 = .ok ()) : m.Open := by
  refine ⟨h.isSealed, h.frozen, h.ends, ?_⟩
  unfold sealUp at hseal
  rw [h.isSealed, if_neg Bool.false_ne_true] at hseal
  split at hseal
  · cases hseal
  rename_i ends hlayout
  split at hseal
  · cases hseal
  rename_i families hplace
  exact unplaced_of_placeAll (length_le_of_layout hlayout) hplace

theorem Unsealed.of_sealUp_error (h : m.Unsealed) {e : Failure} (hseal : m.sealUp.1 = .error e) :
    m.sealUp.2.Unsealed := by
  unfold sealUp at hseal ⊢
  split
  · exact h
  split
  · exact h
  split
  · exact ⟨h.isSealed, h.frozen, h.ends⟩
  · simp_all

theorem Unsealed.of_sameLayout {m' : Model κ} (h : m.Unsealed) (hsame : m.SameLayout m') :
    m'.Unsealed :=
  ⟨hsame.isSealed.trans h.isSealed, hsame.catalog.frozen_eq.trans h.frozen,
    hsame.ends.trans h.ends⟩

theorem Unsealed.perform (h : m.Unsealed) (a : Action κ) :
    (m.perform a).2.Unsealed ∨ ∃ sizes, (m.perform a).2.LaidOut sizes := by
  have hstep := m.perform_layoutStep a
  generalize (m.perform a).2 = m' at hstep ⊢
  cases hstep with
  | keep hsame => exact .inl (h.of_sameLayout hsame)
  | limit hset =>
      obtain ⟨hopen, rfl⟩ := Catalog.setLimit_eq_ok hset
      exact .inl ⟨h.isSealed, hopen, h.ends⟩
  | declare => exact .inl ⟨h.isSealed, h.frozen, h.ends⟩
  | place => exact .inl ⟨h.isSealed, h.frozen, h.ends⟩
  | sealUp =>
      cases hseal : m.sealUp.1 with
      | error e => exact .inl (h.of_sealUp_error hseal)
      | ok u =>
          rcases (h.open_of_sealUp hseal).sealUp_cases with ⟨e, heq⟩ | ⟨sizes, -, hlaid⟩
          · rw [heq] at hseal
            cases hseal
          · exact .inr ⟨sizes, hlaid⟩

theorem unsealed_or_laidOut [Scalar κ] (name : Option String) (history : List (Action κ)) :
    ((Model.empty name).run history).Unsealed
      ∨ ∃ sizes, ((Model.empty name).run history).LaidOut sizes := by
  refine run_invariant (P := fun m => m.Unsealed ∨ ∃ sizes, m.LaidOut sizes) ?_
    (.inl ⟨rfl, rfl, rfl⟩)
  rintro m a - (hunsealed | ⟨sizes, hlaid⟩)
  · exact hunsealed.perform a
  · exact .inr ⟨sizes, hlaid.perform a⟩

theorem laidOut_of_sealed [Scalar κ] {name : Option String} {history : List (Action κ)}
    (h : ((Model.empty name).run history).isSealed = true) :
    ∃ sizes, ((Model.empty name).run history).LaidOut sizes := by
  rcases unsealed_or_laidOut name history with hunsealed | hlaid
  · cases hunsealed.isSealed.symm.trans h
  · exact hlaid

/-! ### Labels -/

theorem distinct_perform (h : m.catalog.Distinct) (a : Action κ) :
    (m.perform a).2.catalog.Distinct := by
  have hstep := m.perform_layoutStep a
  generalize (m.perform a).2 = m' at hstep ⊢
  cases hstep with
  | keep hsame => exact hsame.catalog.distinct h
  | limit hset => exact h.setLimit hset
  | declare => exact h
  | place => exact h
  | sealUp =>
      obtain ⟨frozen, heq⟩ := m.sealUp_catalog
      rw [heq]
      exact h

theorem distinct_run [Scalar κ] (name : Option String) (history : List (Action κ)) :
    ((Model.empty name).run history).catalog.Distinct :=
  run_invariant (P := fun m => m.catalog.Distinct) (fun _ a _ h => distinct_perform h a)
    Catalog.distinct_empty

end LinearProgram.Model
