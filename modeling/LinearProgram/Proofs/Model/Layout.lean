import LinearProgram.Proofs.Expr.Affine
import LinearProgram.Proofs.Family
import LinearProgram.Proofs.Model.History
import LinearProgram.Proofs.PrefixSum

/-!
The column layout. A model is open, with no columns at all, until it is sealed; from then on its
families take up consecutive blocks of columns, and no request moves them. Main statement: after a
successful sealing, whatever follows, every column below the column count has exactly one family,
which is the one that `Model.owner` finds, and there is none beyond.
-/

namespace LinearProgram

variable {κ : Type}

namespace Model

variable {m : Model κ} {sizes : List Nat}

/-- Before sealing no family has columns, and index data is accepted. -/
structure Open (m : Model κ) : Prop where
  isSealed : m.isSealed = false
  frozen : m.catalog.frozen = false
  ends : m.ends = []
  start : ∀ f ∈ m.families, f.start = none

/-- From sealing on the families have the given sizes and take up consecutive blocks of columns. -/
structure LaidOut (m : Model κ) (sizes : List Nat) : Prop where
  isSealed : m.isSealed = true
  frozen : m.catalog.frozen = true
  size : List.Forall₂ (fun f n => f.size m.catalog = .ok n) m.families sizes
  start : ∀ i f, m.families[i]? = some f → f.start = some (sizes.take i).sum
  ends : m.ends = totals sizes
  fits : ∀ e ∈ m.ends, e < Word.limit

/-! ### Sealing -/

theorem layout_eq_ok {ends : List Nat} (h : m.layout = .ok ends) :
    ∃ sizes, List.Forall₂ (fun f n => f.size m.catalog = .ok n) m.families sizes
      ∧ ends = totals sizes ∧ ∀ e ∈ ends, e < Word.limit := by
  obtain ⟨sizes, hsizes, htotals⟩ := Outcome.bind_eq_ok_iff.mp h
  rw [Outcome.mapM_eq_ok_iff] at hsizes
  have hlimit : ∀ n ∈ sizes, n < Word.limit := by
    intro n hn
    obtain ⟨i, hi, rfl⟩ := List.getElem_of_mem hn
    exact Family.size_lt_limit (hsizes.get (by rwa [hsizes.length_eq]) hi)
  exact ⟨sizes, hsizes, runningTotals_eq_ok hlimit htotals⟩

theorem placeAll_of_unplaced {fs : List (Family κ)} {starts : List Nat}
    (hfs : ∀ f ∈ fs, f.start = none) (hlength : fs.length ≤ starts.length) :
    placeAll fs starts
      = (.ok (), fs.zipWith (fun f start => { f with start := some start }) starts) := by
  induction fs generalizing starts with
  | nil => cases starts <;> rfl
  | cons f fs ih =>
      cases starts with
      | nil => simp at hlength
      | cons start starts =>
          obtain ⟨hf, hrest⟩ := List.forall_mem_cons.mp hfs
          have hplace : f.place start = .ok { f with start := some start } := by
            unfold Family.place
            rw [hf]
          rw [placeAll, hplace]
          dsimp only
          rw [ih hrest (by simpa using hlength)]
          rfl

theorem forall₂_size_placed {c : Catalog} {fs : List (Family κ)} {starts : List Nat}
    (h : List.Forall₂ (fun f n => f.size c = .ok n) fs sizes)
    (hlength : fs.length ≤ starts.length) :
    List.Forall₂ (fun (f : Family κ) n => f.size c = .ok n)
      (fs.zipWith (fun f start => { f with start := some start }) starts) sizes := by
  induction h generalizing starts with
  | nil => simp
  | cons hf _ ih =>
      cases starts with
      | nil => simp at hlength
      | cons start starts => exact .cons hf (ih (by simpa using hlength))

theorem getElem?_starts {i : Nat} (hi : i ≤ sizes.length) :
    (0 :: totals sizes)[i]? = some (sizes.take i).sum := by
  cases i with
  | zero => simp
  | succ i =>
      rw [List.getElem?_cons_succ, totals, List.getElem?_map, List.getElem?_range hi]
      rfl

/-- Sealing an open model either fails and changes nothing, or lays out the families. -/
theorem Open.sealUp_cases (h : m.Open) :
    (∃ e, m.sealUp = (.error e, m)) ∨ ∃ sizes, m.sealUp.1 = .ok () ∧ m.sealUp.2.LaidOut sizes := by
  unfold sealUp
  rw [h.isSealed]
  cases hlayout : m.layout with
  | error e => exact .inl ⟨e, rfl⟩
  | ok ends =>
      obtain ⟨sizes, hsizes, hends, hfits⟩ := layout_eq_ok hlayout
      have hlength : m.families.length ≤ (0 :: ends).length := by
        rw [hends, List.length_cons, length_totals, hsizes.length_eq]
        exact Nat.le_succ _
      refine .inr ⟨sizes, ?_⟩
      simp only [Bool.false_eq_true, ↓reduceIte, placeAll_of_unplaced h.start hlength, true_and]
      refine ⟨rfl, rfl, forall₂_size_placed hsizes hlength, ?_, hends, hfits⟩
      intro i f hf
      rw [List.getElem?_zipWith_eq_some] at hf
      obtain ⟨g, start, hg, hstart, rfl⟩ := hf
      have hi : i < m.families.length := (List.getElem?_eq_some_iff.mp hg).1
      rw [hends, getElem?_starts (by rw [← hsizes.length_eq]; exact hi.le)] at hstart
      exact hstart.symm

/-! ### What requests keep -/

theorem LaidOut.of_sameLayout {m' : Model κ} (h : m.LaidOut sizes) (hsame : m.SameLayout m') :
    m'.LaidOut sizes := by
  have hcatalog : m'.catalog = m.catalog := hsame.catalog.eq_of_frozen h.frozen
  constructor
  · rw [hsame.isSealed, h.isSealed]
  · rw [hcatalog, h.frozen]
  · rw [hcatalog, hsame.families]
    exact h.size
  · rw [hsame.families]
    exact h.start
  · rw [hsame.ends, h.ends]
  · rw [hsame.ends]
    exact h.fits

theorem sealUp_of_sealed (h : m.isSealed = true) : m.sealUp = (.refuse .sealedTwice, m) := by
  rw [Model.sealUp, if_pos h]

/-- What is laid out stays where it is, whatever is requested. -/
theorem LaidOut.sameLayout_perform (h : m.LaidOut sizes) (a : Action κ) :
    m.SameLayout (m.perform a).2 := by
  have hstep := m.perform_layoutStep a
  generalize (m.perform a).2 = m' at hstep ⊢
  cases hstep with
  | keep hsame => exact hsame
  | limit hset => cases h.frozen.symm.trans (Catalog.setLimit_eq_ok hset).1
  | declare hopen => cases h.isSealed.symm.trans hopen
  | place hf hstart => cases (h.start _ _ hf).symm.trans hstart
  | sealUp =>
      rw [sealUp_of_sealed h.isSealed]
      exact .refl m

theorem LaidOut.perform (h : m.LaidOut sizes) (a : Action κ) : (m.perform a).2.LaidOut sizes :=
  h.of_sameLayout (h.sameLayout_perform a)

theorem LaidOut.sameLayout_run (h : m.LaidOut sizes) (history : List (Action κ)) :
    m.SameLayout (m.run history) :=
  run_invariant (P := fun m' => m.SameLayout m')
    (fun _ a _ hsame => hsame.trans ((h.of_sameLayout hsame).sameLayout_perform a)) (.refl m)

theorem LaidOut.sameData_run (h : m.LaidOut sizes) (history : List (Action κ)) :
    m.SameData (m.run history) := (h.sameLayout_run history).sameData h.frozen

theorem LaidOut.run (h : m.LaidOut sizes) (history : List (Action κ)) :
    (m.run history).LaidOut sizes :=
  h.of_sameLayout (h.sameLayout_run history)

theorem Open.of_sameLayout {m' : Model κ} (h : m.Open) (hsame : m.SameLayout m') : m'.Open := by
  constructor
  · rw [hsame.isSealed, h.isSealed]
  · rw [hsame.catalog.frozen_eq, h.frozen]
  · rw [hsame.ends, h.ends]
  · rw [hsame.families]
    exact h.start

theorem Open.perform (h : m.Open) {a : Action κ} (ha : a.Ordinary) :
    (m.perform a).2.Open ∨ ∃ sizes, (m.perform a).2.LaidOut sizes := by
  have hstep := m.perform_layoutStep a
  generalize (m.perform a).2 = m' at hstep ⊢
  cases hstep with
  | keep hsame => exact .inl (h.of_sameLayout hsame)
  | limit hset =>
      obtain ⟨hopen, rfl⟩ := Catalog.setLimit_eq_ok hset
      exact .inl ⟨h.isSealed, hopen, h.ends, h.start⟩
  | declare =>
      refine .inl ⟨h.isSealed, h.frozen, h.ends, ?_⟩
      exact List.forall_mem_append.mpr ⟨h.start, List.forall_mem_singleton.mpr rfl⟩
  | place => exact ha.elim
  | sealUp =>
      rcases h.sealUp_cases with ⟨e, heq⟩ | ⟨sizes, -, hlaid⟩
      · rw [heq]
        exact .inl h
      · exact .inr ⟨sizes, hlaid⟩

theorem open_empty [Scalar κ] (name : Option String) : (Model.empty name : Model κ).Open :=
  ⟨rfl, rfl, rfl, by simp [Model.empty]⟩

theorem Reachable.open_or_laidOut [Scalar κ] (hm : m.Reachable) :
    m.Open ∨ ∃ sizes, m.LaidOut sizes := by
  refine hm.invariant (P := fun m => m.Open ∨ ∃ sizes, m.LaidOut sizes) ?_ ?_
  · exact fun name => .inl (open_empty name)
  · intro m a ha h
    rcases h with hopen | ⟨sizes, hlaid⟩
    · exact hopen.perform ha
    · exact .inr ⟨sizes, hlaid.perform a⟩

theorem Reachable.laidOut [Scalar κ] (hm : m.Reachable) (hsealed : m.isSealed = true) :
    ∃ sizes, m.LaidOut sizes := by
  rcases hm.open_or_laidOut with hopen | hlaid
  · cases hopen.isSealed.symm.trans hsealed
  · exact hlaid

theorem Reachable.laidOut_perform_sealUp [Scalar κ] (hm : m.Reachable)
    (hseal : (m.perform .sealUp).1 = .ok []) :
    ∃ sizes, (m.perform .sealUp).2.LaidOut sizes := by
  rcases hm.open_or_laidOut with hopen | ⟨sizes, hlaid⟩
  · rcases hopen.sealUp_cases with ⟨e, heq⟩ | ⟨sizes, -, hlaid⟩
    · rw [perform, heq] at hseal
      cases hseal
    · exact ⟨sizes, hlaid⟩
  · exact ⟨sizes, hlaid.perform .sealUp⟩

/-! ### Columns and their families -/

theorem LaidOut.columnCount (h : m.LaidOut sizes) : m.columnCount = sizes.sum := by
  rw [Model.columnCount, h.ends, getLastD_totals]

theorem LaidOut.placed (h : m.LaidOut sizes) {i : Nat} {f : Family κ}
    (hf : m.families[i]? = some f) (hi : i < sizes.length) :
    f.Placed m.catalog (sizes.take i).sum sizes[i] := by
  obtain ⟨hplace, rfl⟩ := List.getElem?_eq_some_iff.mp hf
  exact ⟨h.start i _ hf, h.size.get hplace hi⟩

theorem LaidOut.lt_length (h : m.LaidOut sizes) {i : Nat} {f : Family κ}
    (hf : m.families[i]? = some f) : i < sizes.length := by
  rw [← h.size.length_eq]
  exact (List.getElem?_eq_some_iff.mp hf).1

theorem LaidOut.covers_iff (h : m.LaidOut sizes) {i j : Nat} {f : Family κ}
    (hf : m.families[i]? = some f) : f.Covers m.catalog j ↔ InBlock sizes i j := by
  have hi := h.lt_length hf
  rw [(h.placed hf hi).covers_iff]
  constructor
  · rintro ⟨hfirst, hlast⟩
    exact ⟨hi, hfirst, hlast⟩
  · intro hblock
    exact ⟨hblock.first, hblock.last⟩

theorem LaidOut.owner_eq (h : m.LaidOut sizes) {i j : Nat} {f : Family κ}
    (hf : m.families[i]? = some f) (hj : InBlock sizes i j) : m.owner j = .ok f := by
  rw [owner, whenSealed, h.isSealed, h.ends, hj.blockAt_totals]
  simp only [↓reduceIte, Outcome.ok_bind]
  rw [hf]
  rfl

theorem LaidOut.owner_of_le (h : m.LaidOut sizes) {j : Nat} (hj : m.columnCount ≤ j) :
    m.owner j = .refuse (.outsideModel j m.columnCount) := by
  have hnone : m.families[sizes.length]? = none := by
    rw [← h.size.length_eq]
    exact List.getElem?_eq_none le_rfl
  rw [h.columnCount] at hj
  rw [owner, whenSealed, h.isSealed, h.ends, blockAt_totals_of_le hj]
  simp only [↓reduceIte, Outcome.ok_bind]
  rw [hnone]

theorem LaidOut.exists_family (h : m.LaidOut sizes) {j : Nat} (hj : j < m.columnCount) :
    ∃ i f, m.families[i]? = some f ∧ InBlock sizes i j := by
  rw [h.columnCount] at hj
  obtain ⟨i, hblock⟩ := exists_inBlock hj
  have hi : i < m.families.length := by
    rw [h.size.length_eq]
    exact hblock.place
  exact ⟨i, m.families[i], List.getElem?_eq_getElem hi, hblock⟩

/-- After a successful sealing, whatever follows: families start where those declared before them
end, the column count is the sum of all sizes, every column below it has exactly one family, and
that is the one found. -/
theorem layout_of_sealed_history [Scalar κ] (name : Option String) {before : List (Action κ)}
    (after : List (Action κ)) (hbefore : ∀ a ∈ before, a.Ordinary)
    (hseal : (((Model.empty name).run before).perform .sealUp).1 = .ok []) :
    let m := (Model.empty name).run (before ++ .sealUp :: after)
    ∃ sizes : List Nat,
      List.Forall₂ (fun f n => f.size m.catalog = .ok n) m.families sizes
      ∧ (∀ i f, m.families[i]? = some f → f.start = some (sizes.take i).sum)
      ∧ m.columnCount = sizes.sum
      ∧ (∀ j, j < m.columnCount → ∃ (i : Nat) (f : Family κ),
          m.families[i]? = some f ∧ m.owner j = .ok f
          ∧ f.Covers m.catalog j ∧ f.size m.catalog ≠ .ok 0
          ∧ ∀ (i' : Nat) (f' : Family κ), m.families[i']? = some f' →
            f'.Covers m.catalog j → i' = i)
      ∧ ∀ j, m.columnCount ≤ j → m.owner j = .refuse (.outsideModel j m.columnCount)
          ∧ (Fault.outsideModel j m.columnCount).kind = .invalidIndex := by
  intro m
  have hreachable : ((Model.empty name).run before).Reachable := ⟨name, before, hbefore, rfl⟩
  obtain ⟨sizes, hsealed⟩ := hreachable.laidOut_perform_sealUp hseal
  have hlaid : m.LaidOut sizes := by
    change ((Model.empty name).run (before ++ .sealUp :: after)).LaidOut sizes
    rw [run_append]
    exact hsealed.run after
  refine ⟨sizes, hlaid.size, hlaid.start, hlaid.columnCount, ?_, ?_⟩
  · intro j hj
    obtain ⟨i, f, hf, hblock⟩ := hlaid.exists_family hj
    have hcovers : f.Covers m.catalog j := (hlaid.covers_iff hf).mpr hblock
    refine ⟨i, f, hf, hlaid.owner_eq hf hblock, hcovers, ?_, ?_⟩
    · intro hempty
      obtain ⟨start, n, -, hsize, hfirst, hlast⟩ := hcovers
      cases hempty.symm.trans hsize
      omega
    · intro i' f' hf' hcovers'
      exact ((hlaid.covers_iff hf').mp hcovers').unique hblock
  · intro j hj
    exact ⟨hlaid.owner_of_le hj, rfl⟩

/-- Families without elements stand before, between and after two that have some. -/
def hollowHistory : List (Action Rat) :=
  [.declareFamily (some "u") [⟨"B", .labelled⟩] .free,
    .addLabels ⟨"A", .labelled⟩ ["a", "b"],
    .declareFamily (some "x") [⟨"A", .labelled⟩] .free,
    .declareFamily (some "v") [⟨"B", .labelled⟩] .free,
    .declareFamily none [] .free,
    .declareFamily (some "w") [⟨"B", .labelled⟩] .free]

theorem layout_of_hollowHistory :
    (∀ a ∈ hollowHistory, a.Ordinary)
      ∧ (((Model.empty none).run hollowHistory).perform .sealUp).1 = .ok []
      ∧ let m := (Model.empty none).run (hollowHistory ++ .sealUp :: [.setLimit "T" 4])
        ∃ (i : Nat) (f : Family Rat),
          m.families[i]? = some f ∧ m.owner 2 = .ok f ∧ f.Covers m.catalog 2 := by
  have hordinary : ∀ a ∈ hollowHistory, a.Ordinary := by simp [hollowHistory, Action.Ordinary]
  have hseal : (((Model.empty none).run hollowHistory).perform .sealUp).1 = .ok [] := by decide
  obtain ⟨_, -, -, -, hbelow, -⟩ :=
    layout_of_sealed_history none [.setLimit "T" 4] hordinary hseal
  obtain ⟨i, f, hf, howner, hcovers, -, -⟩ := hbelow 2 (by decide)
  exact ⟨hordinary, hseal, i, f, hf, howner, hcovers⟩

end Model

end LinearProgram
