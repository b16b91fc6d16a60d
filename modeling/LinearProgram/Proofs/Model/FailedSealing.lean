import LinearProgram.Proofs.Model.Sealed
import LinearProgram.Proofs.Model.Tables
import LinearProgram.Proofs.Session

/-!
Sealing that fails. The columns are worked out before the first family is placed, so a sealing that
cannot work them out leaves everything as it was, and can be tried again. Only a family that was
placed by hand makes sealing fail later than that; the model stays open even then, and a family
that has its columns never gets others.
-/

namespace LinearProgram

variable {κ : Type}

/-- Why a dimension has no size: the value of its last element is not known, or it has more
elements than a signed word can count. -/
inductive Catalog.Sizeless (c : Catalog) (d : Dimension) : Failure → Prop
  | unset {lower : Int} {marker : Marker} (hextent : d.extent = .range lower (.limit marker))
      (hlimit : c.limit? marker = none) : Sizeless c d (.fault (.limitUnset d.name marker.name))
  | long {lower upper : Int} {e : RangeEnd} {t : Trap} (hextent : d.extent = .range lower e)
      (hupper : c.upper d e = .ok upper) (hlong : Word.limit ≤ 2 * (upper - lower + 1))
      (htrap : t = .subOverflow ∨ t = .addOverflow) : Sizeless c d (.trap t)

theorem Catalog.upper_eq_error {c : Catalog} {d : Dimension} {e : RangeEnd} {failure : Failure}
    (h : c.upper d e = .error failure) :
    ∃ marker, e = .limit marker ∧ c.limit? marker = none
      ∧ failure = .fault (.limitUnset d.name marker.name) := by
  cases e with
  | fixed v => cases h
  | limit marker =>
      unfold upper at h
      dsimp only at h
      split at h
      · cases h
      · rename_i hlimit
        cases h
        exact ⟨marker, rfl, hlimit, rfl⟩

theorem Catalog.sizeless_of_error {c : Catalog} {d : Dimension} {failure : Failure}
    (h : c.size d = .error failure) : c.Sizeless d failure := by
  unfold size at h
  split at h
  · cases h
  rename_i lower e hextent
  rcases Outcome.bind_eq_error_iff.mp h with hfailed | ⟨upper, hupper, hrest⟩
  · obtain ⟨marker, rfl, hlimit, rfl⟩ := upper_eq_error hfailed
    exact .unset hextent hlimit
  split at hrest
  · cases hrest
  rcases Outcome.bind_eq_error_iff.mp hrest with hsub | ⟨span, hspan, hrest⟩
  · obtain ⟨hlong, rfl⟩ := Outcome.check_eq_error_iff.mp hsub
    rw [Signed.fits_iff] at hlong
    exact .long hextent hupper (by omega) (.inl rfl)
  obtain ⟨-, rfl⟩ := Signed.sub_eq_ok_iff.mp hspan
  rcases Outcome.bind_eq_error_iff.mp hrest with hadd | ⟨total, -, hdone⟩
  · obtain ⟨hlong, rfl⟩ := Outcome.check_eq_error_iff.mp hadd
    rw [Signed.fits_iff] at hlong
    exact .long hextent hupper (by omega) (.inr rfl)
  · cases hdone

namespace Model

variable {m : Model κ} {e : Failure} {i : Nat} {f : Family κ}

/-! ### Why there is no layout -/

/-- What stands in the way of laying out the families: a dimension without a size, or a family, or
all families together, with more elements than a word can count. -/
inductive Obstacle (m : Model κ) : Failure → Prop
  | dimension {f : Family κ} {d : Dimension} {e : Failure} (hf : f ∈ m.families)
      (hd : d ∈ f.space) (hsize : m.catalog.Sizeless d e) : Obstacle m e
  | family {f : Family κ} {sizes : Shape} {i : Nat} (hf : f ∈ m.families)
      (hsizes : f.space.sizes m.catalog = .ok sizes)
      (hlong : Word.limit ≤ (sizes.take i).prod) : Obstacle m (.trap .mulOverflow)
  | model {sizes : List Nat}
      (hsizes : List.Forall₂ (fun f n => f.size m.catalog = .ok n) m.families sizes)
      (hlong : Word.limit ≤ sizes.sum) : Obstacle m (.trap .addOverflow)

theorem obstacle_of_layout (h : m.layout = .error e) : m.Obstacle e := by
  rcases Outcome.bind_eq_error_iff.mp h with hfailed | ⟨sizes, hsizes, htotals⟩
  · obtain ⟨f, hf, hsize⟩ := Outcome.exists_of_mapM_error hfailed
    rcases Outcome.bind_eq_error_iff.mp hsize with hfailed | ⟨sizes, hsizes, hcount⟩
    · obtain ⟨d, hd, hsize⟩ := Outcome.exists_of_mapM_error hfailed
      exact .dimension hf hd (Catalog.sizeless_of_error hsize)
    · obtain ⟨rfl, i, hlong⟩ := Shape.count_eq_error hcount
      exact .family hf hsizes hlong
  · obtain ⟨rfl, hlong⟩ := runningTotals_eq_error htotals
    exact .model (Outcome.mapM_eq_ok_iff.mp hsizes) hlong

/-! ### Sealing without families placed by hand -/

/-- A model that takes labels, limits and families. -/
structure Accepting (m : Model κ) : Prop where
  isSealed : m.isSealed = false
  setLimit : ∀ marker v, (m.perform (.setLimit marker v)).1 = .ok []
  addLabel : ∀ d l, d.extent = .labelled → l ∉ m.catalog.labels d →
    (m.perform (.addLabels d [l])).1 = .ok [(m.catalog.labels d).length]
  declareFamily : ∀ name space domain, (∀ g ∈ m.families, g.name ≠ name) →
    (m.perform (.declareFamily (some name) space domain)).1 = .ok [m.families.length]

theorem Open.accepting (h : m.Open) : m.Accepting where
  isSealed := h.isSealed
  setLimit marker v := by
    rw [Model.perform, Model.setLimit, Catalog.setLimit_of_open h.frozen]
    rfl
  addLabel d l hextent hnew := by
    rw [Model.perform, addLabels, Catalog.addLabel_of_new h.frozen hextent hnew]
    rfl
  declareFamily name space domain hname := by
    rw [Model.perform, Model.declareFamily, h.isSealed, if_neg Bool.false_ne_true]
    dsimp only
    rw [if_neg (by simpa using hname)]
    rfl

/-- A failed sealing of which no trace is left. -/
structure Undone (m : Model κ) (e : Failure) : Prop where
  perform : m.perform .sealUp = (.error e, m)
  unplaced : ∀ f ∈ m.families, f.start = none
  accepting : m.Accepting
  trace : ∀ later, m.trace (.sealUp :: later) = (m, .sealUp) :: m.trace later
  session : ∀ (s : Session κ) (k : Nat), s.model k = .ok m →
    s.perform k .sealUp = (.error e, s)

theorem sealUp_eq_error_iff : (m.perform .sealUp).1 = .error e ↔ m.sealUp.1 = .error e := by
  rw [perform]
  cases hseal : m.sealUp.1 with
  | error e' => simp [hseal, Except.map]
  | ok u => simp [hseal, Except.map]

/-- Without families placed by hand, sealing fails only for want of a layout. -/
theorem Open.layout_of_sealUp_error (h : m.Open) (hfailed : m.sealUp.1 = .error e) :
    m.layout = .error e := by
  rw [sealUp, h.isSealed, if_neg Bool.false_ne_true] at hfailed
  cases hlayout : m.layout with
  | error e' =>
      rw [hlayout] at hfailed
      cases hfailed
      rfl
  | ok ends =>
      -- once there is a layout, every family can be placed
      rw [hlayout] at hfailed
      dsimp only at hfailed
      rw [placeAll_of_unplaced h.start (length_le_of_layout hlayout)] at hfailed
      cases hfailed

theorem Open.undone (h : m.Open) (hfailed : m.sealUp.1 = .error e) : m.Undone e := by
  have hperform : m.perform .sealUp = (.error e, m) := by
    rw [Model.perform]
    rcases h.sealUp_cases with ⟨e', heq⟩ | ⟨sizes, hok, -⟩
    · rw [heq] at hfailed ⊢
      cases hfailed
      rfl
    · cases hok.symm.trans hfailed
  refine ⟨hperform, h.start, h.accepting, fun later => ?_, fun s k hm => ?_⟩
  · rw [trace, hperform]
  · exact Session.perform_of_unchanged hm hperform

/-! ### Families with columns -/

theorem getElem?_placeAll {fs : List (Family κ)} {starts : List Nat} (hf : fs[i]? = some f)
    (hstart : f.start ≠ none) : (placeAll fs starts).2[i]? = some f := by
  induction fs generalizing starts i with
  | nil => cases hf
  | cons g fs ih =>
      cases starts with
      | nil => exact hf
      | cons start starts =>
          rw [placeAll]
          cases hplace : g.place start with
          | error e => exact hf
          | ok g' =>
              cases i with
              | zero =>
                  cases hf
                  exact (hstart (Family.place_eq_ok hplace).1).elim
              | succ i => exact ih hf

/-- A family that has its columns keeps them. -/
theorem getElem?_perform (hf : m.families[i]? = some f) (hstart : f.start ≠ none)
    (a : Action κ) : (m.perform a).2.families[i]? = some f := by
  have hstep := m.perform_layoutStep a
  generalize (m.perform a).2 = m' at hstep ⊢
  cases hstep with
  | keep hsame => rwa [hsame.families]
  | limit => exact hf
  | declare =>
      dsimp only
      rw [List.getElem?_append_left (List.getElem?_eq_some_iff.mp hf).1, hf]
  | @place slot start g hg hunplaced =>
      have hne : slot ≠ i := by
        rintro rfl
        cases hg.symm.trans hf
        exact hstart hunplaced
      dsimp only
      rw [List.getElem?_set_ne hne, hf]
  | sealUp =>
      rcases m.families_sealUp with heq | ⟨starts, heq⟩
      · rwa [heq]
      · rw [heq]
        exact getElem?_placeAll hf hstart

theorem getElem?_run (hf : m.families[i]? = some f) (hstart : f.start ≠ none)
    (later : List (Action κ)) : (m.run later).families[i]? = some f :=
  run_invariant (P := fun m => m.families[i]? = some f)
    (fun _ a _ hf => getElem?_perform hf hstart a) hf

/-! ### All or nothing -/

/-- A sealing that fails on an open model whose families nobody has placed by hand was obstructed by
a size, and leaves no trace: whatever follows is answered as if it had not been requested. A family
placed by hand makes sealing fail and the model stay open. No family ever loses its columns. -/
theorem sealing_all_or_nothing [Scalar κ] (name : Option String) (history : List (Action κ)) :
    let m := (Model.empty name).run history
    ((∀ a ∈ history, a.Ordinary) → m.isSealed = false → ∀ e, (m.perform .sealUp).1 = .error e →
        m.Obstacle e ∧ m.Undone e)
      ∧ (m.isSealed = false → (∃ f ∈ m.families, f.start ≠ none) →
        ∃ e, (m.perform .sealUp).1 = .error e ∧ (m.perform .sealUp).2.Unsealed)
      ∧ ∀ (later : List (Action κ)) (i : Nat) (f : Family κ), m.families[i]? = some f →
        f.start ≠ none → (m.run later).families[i]? = some f := by
  intro m
  refine ⟨fun hordinary hopen e hfailed => ?_, fun hopen ⟨f, hf, hstart⟩ => ?_,
    fun later i f hf hstart => getElem?_run hf hstart later⟩
  · rw [sealUp_eq_error_iff] at hfailed
    have hm : m.Reachable := ⟨name, history, hordinary, rfl⟩
    rcases hm.open_or_laidOut with hunplaced | ⟨sizes, hlaid⟩
    · exact ⟨obstacle_of_layout (hunplaced.layout_of_sealUp_error hfailed),
        hunplaced.undone hfailed⟩
    · cases hopen.symm.trans hlaid.isSealed
  · rcases unsealed_or_laidOut name history with hunsealed | ⟨sizes, hlaid⟩
    · cases hseal : m.sealUp.1 with
      | error e =>
          exact ⟨e, sealUp_eq_error_iff.mpr hseal, hunsealed.of_sealUp_error hseal⟩
      | ok u => exact (hstart ((hunsealed.open_of_sealUp hseal).start f hf)).elim
    · cases hopen.symm.trans hlaid.isSealed

/-- A family over a range whose limit is not set. -/
def unboundHistory : List (Action Rat) :=
  [.declareFamily (some "x") [⟨"R", .range 1 (.limit "T")⟩] .free]

theorem sealing_of_unboundHistory :
    let m := (Model.empty none).run unboundHistory
    let placed := (Model.empty none).run (unboundHistory ++ [.placeFamily 0 7])
    m.Obstacle (.fault (.limitUnset "R" "T"))
      ∧ m.Undone (.fault (.limitUnset "R" "T"))
      ∧ (m.run [.sealUp, .setLimit "T" 4, .sealUp]).columnCount = 4
      ∧ (∃ e, (placed.perform .sealUp).1 = .error e ∧ (placed.perform .sealUp).2.Unsealed)
      ∧ ∃ f, f.start = some 7
        ∧ (placed.run [.setLimit "T" 4, .sealUp]).families[0]? = some f := by
  have hordinary : ∀ a ∈ unboundHistory, a.Ordinary := by
    simp [unboundHistory, Action.Ordinary]
  obtain ⟨hunplaced, -, -⟩ := sealing_all_or_nothing none unboundHistory
  obtain ⟨hobstacle, hundone⟩ := hunplaced hordinary rfl _ rfl
  obtain ⟨-, hplaced, hkept⟩ :=
    sealing_all_or_nothing none (unboundHistory ++ [.placeFamily 0 7])
  refine ⟨hobstacle, hundone, by decide, hplaced rfl ⟨_, List.mem_cons_self, ?_⟩, _, rfl,
    hkept _ 0 _ rfl ?_⟩
  · exact Option.some_ne_none 7
  · exact Option.some_ne_none 7

end Model

end LinearProgram
