import LinearProgram.Proofs.Catalog.Labels
import LinearProgram.Proofs.Model.History

/-!
Integers of a model. The limits of a model are set by requests, and the ranges its families stretch
over come with their declarations; as long as requests bring signed words, a model holds no others.
-/

namespace LinearProgram

variable {κ : Type}

/-- The integers that a request brings in for the layout are signed words. -/
def Action.InWords : Action κ → Prop
  | .setLimit _ v => Signed.fits v = true
  | .declareFamily _ space _ => ∀ d ∈ space, d.InWords
  | _ => True

namespace Model

variable {m m' : Model κ} {a : Action κ}

/-- The limits of a model, and the ends of the ranges its families stretch over, are signed
words. -/
structure InWords (m : Model κ) : Prop where
  limits : m.catalog.InWords
  spaces : ∀ f ∈ m.families, ∀ d ∈ f.space, d.InWords

theorem inWords_empty [Scalar κ] (name : Option String) : (Model.empty name : Model κ).InWords := by
  constructor
  · intro p hp
    cases hp
  · intro f hf
    cases hf

/-- Placing changes nothing of a family but its start. -/
theorem exists_of_mem_placeAll {fs : List (Family κ)} {starts : List Nat} {f : Family κ}
    (h : f ∈ (placeAll fs starts).2) : ∃ g ∈ fs, f = { g with start := f.start } := by
  induction fs generalizing starts with
  | nil =>
      cases starts <;> cases h
  | cons g fs ih =>
      cases starts with
      | nil => exact ⟨f, h, rfl⟩
      | cons start starts =>
          rw [placeAll] at h
          cases hplace : g.place start with
          | error e =>
              rw [hplace] at h
              exact ⟨f, h, rfl⟩
          | ok g' =>
              rw [hplace] at h
              obtain ⟨-, rfl⟩ := Family.place_eq_ok hplace
              rcases List.mem_cons.mp h with rfl | hrest
              · exact ⟨g, List.mem_cons_self, rfl⟩
              · obtain ⟨g', hmem, heq⟩ := ih hrest
                exact ⟨g', List.mem_cons_of_mem g hmem, heq⟩

theorem sealUp_catalog (m : Model κ) :
    ∃ frozen, m.sealUp.2.catalog = { m.catalog with frozen } := by
  unfold sealUp
  split
  · exact ⟨m.catalog.frozen, rfl⟩
  split
  · exact ⟨m.catalog.frozen, rfl⟩
  split
  · exact ⟨m.catalog.frozen, rfl⟩
  · exact ⟨true, rfl⟩

theorem families_sealUp (m : Model κ) :
    m.sealUp.2.families = m.families ∨ ∃ starts, m.sealUp.2.families
      = (placeAll m.families starts).2 := by
  unfold sealUp
  split
  · exact .inl rfl
  split
  · exact .inl rfl
  rename_i ends _
  split
  · rename_i hplace
    exact .inr ⟨0 :: ends, by rw [hplace]⟩
  · rename_i hplace
    exact .inr ⟨0 :: ends, by rw [hplace]⟩

theorem exists_of_mem_sealUp {f : Family κ} (h : f ∈ m.sealUp.2.families) :
    ∃ g ∈ m.families, f = { g with start := f.start } := by
  rcases m.families_sealUp with heq | ⟨starts, heq⟩
  · rw [heq] at h
    exact ⟨f, h, rfl⟩
  · rw [heq] at h
    exact exists_of_mem_placeAll h

theorem InWords.perform (h : m.InWords) (ha : a.InWords) : (m.perform a).2.InWords := by
  have hstep := m.perform_layoutStep a
  generalize (m.perform a).2 = m' at hstep ⊢
  cases hstep with
  | keep hsame =>
      constructor
      · rw [Catalog.InWords, hsame.catalog.limits_eq]
        exact h.limits
      · rw [hsame.families]
        exact h.spaces
  | limit hset =>
      obtain ⟨-, rfl⟩ := Catalog.setLimit_eq_ok hset
      refine ⟨?_, h.spaces⟩
      intro p hp
      rcases Keyed.mem_put hp with rfl | hp
      · exact ha
      · exact h.limits p hp
  | declare =>
      refine ⟨h.limits, ?_⟩
      exact List.forall_mem_append.mpr ⟨h.spaces, List.forall_mem_singleton.mpr ha⟩
  | @place slot start f hf hstart =>
      refine ⟨h.limits, ?_⟩
      intro g hg
      rcases List.mem_or_eq_of_mem_set hg with hg | rfl
      · exact h.spaces g hg
      · exact h.spaces f (List.mem_of_getElem? hf)
  | sealUp =>
      constructor
      · obtain ⟨frozen, heq⟩ := m.sealUp_catalog
        rw [heq]
        exact h.limits
      · intro f hf
        obtain ⟨g, hg, heq⟩ := exists_of_mem_sealUp hf
        rw [heq]
        exact h.spaces g hg

theorem InWords.run {history : List (Action κ)} (h : m.InWords)
    (hhistory : ∀ a ∈ history, a.InWords) : (m.run history).InWords :=
  run_invariant (fun _ a ha hm => hm.perform (hhistory a ha)) h

end Model

end LinearProgram
