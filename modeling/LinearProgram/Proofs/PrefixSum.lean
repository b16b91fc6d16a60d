import LinearProgram.PrefixSum
import LinearProgram.Proofs.Outcome
import LinearProgram.Word
import Mathlib.Algebra.GroupWithZero.Nat
import Mathlib.Algebra.Order.BigOperators.Group.List
import Mathlib.Algebra.Order.Group.Nat
import Mathlib.Data.List.SplitLengths

/-!
Consecutive blocks. Sizes cut the numbers below their sum into blocks, one after the other, and the
running totals are where the blocks end. Every number below the sum lies in exactly one block, and
is found there when it is looked up among the totals; empty blocks contain nothing, wherever they
stand.
-/

namespace LinearProgram

/-- Where blocks of the given sizes end. -/
def totals (sizes : List Nat) : List Nat :=
  (List.range sizes.length).map fun i => (sizes.take (i + 1)).sum

/-- The number `j` lies in the block at place `i`. -/
structure InBlock (sizes : List Nat) (i j : Nat) : Prop where
  place : i < sizes.length
  first : (sizes.take i).sum ≤ j
  last : j < (sizes.take i).sum + sizes[i]

variable {sizes : List Nat} {i i' j : Nat}

theorem length_totals (sizes : List Nat) : (totals sizes).length = sizes.length := by
  rw [totals, List.length_map, List.length_range]

theorem getElem_totals (hi : i < (totals sizes).length) :
    (totals sizes)[i] = (sizes.take (i + 1)).sum := by
  simp [totals]

theorem getLastD_totals (sizes : List Nat) : (totals sizes).getLastD 0 = sizes.sum := by
  cases sizes with
  | nil => rfl
  | cons n ns =>
      rw [totals, List.length_cons, List.range_succ, List.map_append, List.map_singleton,
        List.getLastD_concat, List.take_of_length_le (by simp)]

/-! ### Running totals of machine words -/

theorem runningFrom_eq_ok {acc : Nat} {ns ends : List Nat}
    (h : runningFrom Word.add acc ns = .ok ends) :
    ends = (List.range ns.length).map (fun i => acc + (ns.take (i + 1)).sum)
      ∧ ∀ e ∈ ends, e < Word.limit := by
  induction ns generalizing acc ends with
  | nil =>
      cases h
      simp
  | cons n ns ih =>
      rw [runningFrom] at h
      obtain ⟨next, hnext, hrest⟩ := Outcome.bind_eq_ok_iff.mp h
      obtain ⟨hfit, rfl⟩ := Word.add_eq_ok_iff.mp hnext
      obtain ⟨rest, htail, heq⟩ := Outcome.bind_eq_ok_iff.mp hrest
      cases heq
      obtain ⟨rfl, hfits⟩ := ih htail
      constructor
      · rw [List.length_cons, List.range_succ_eq_map, List.map_cons, List.map_map]
        congr 1
        · simp [Nat.add_comm]
        · apply List.map_congr_left
          intro i _
          simp only [Function.comp_apply, Nat.succ_eq_add_one, List.take_succ_cons, List.sum_cons]
          omega
      · exact List.forall_mem_cons.mpr ⟨hfit, hfits⟩

theorem runningTotals_eq_ok {ends : List Nat} (hsizes : ∀ n ∈ sizes, n < Word.limit)
    (h : runningTotals Word.add sizes = .ok ends) :
    ends = totals sizes ∧ ∀ e ∈ ends, e < Word.limit := by
  cases sizes with
  | nil =>
      cases h
      simp [totals]
  | cons n ns =>
      rw [runningTotals] at h
      obtain ⟨rest, htail, heq⟩ := Outcome.bind_eq_ok_iff.mp h
      cases heq
      obtain ⟨rfl, hfits⟩ := runningFrom_eq_ok htail
      constructor
      · rw [totals, List.length_cons, List.range_succ_eq_map, List.map_cons, List.map_map]
        rfl
      · exact List.forall_mem_cons.mpr ⟨hsizes n List.mem_cons_self, hfits⟩

theorem runningFrom_eq_error {acc : Nat} {ns : List Nat} {e : Failure}
    (h : runningFrom Word.add acc ns = .error e) :
    e = .trap .addOverflow ∧ Word.limit ≤ acc + ns.sum := by
  induction ns generalizing acc with
  | nil => cases h
  | cons n ns ih =>
      rw [runningFrom] at h
      rw [List.sum_cons]
      rcases Outcome.bind_eq_error_iff.mp h with hfirst | ⟨next, hnext, hrest⟩
      · obtain ⟨hlong, heq⟩ := Outcome.check_eq_error_iff.mp hfirst
        exact ⟨heq, by omega⟩
      · obtain ⟨-, rfl⟩ := Word.add_eq_ok_iff.mp hnext
        rcases Outcome.bind_eq_error_iff.mp hrest with htail | ⟨rest, -, hdone⟩
        · obtain ⟨heq, hlong⟩ := ih htail
          exact ⟨heq, by omega⟩
        · cases hdone

theorem runningTotals_eq_error {e : Failure} (h : runningTotals Word.add sizes = .error e) :
    e = .trap .addOverflow ∧ Word.limit ≤ sizes.sum := by
  cases sizes with
  | nil => cases h
  | cons n ns =>
      rw [runningTotals] at h
      rcases Outcome.bind_eq_error_iff.mp h with htail | ⟨rest, -, hdone⟩
      · rw [List.sum_cons]
        exact runningFrom_eq_error htail
      · cases hdone

/-! ### Numbers and their blocks -/

namespace InBlock

theorem lt_end (h : InBlock sizes i j) : j < (sizes.take (i + 1)).sum := by
  rw [List.sum_take_succ sizes i h.place]
  exact h.last

theorem lt_sum (h : InBlock sizes i j) : j < sizes.sum := by
  calc
    j < (sizes.take (i + 1)).sum := h.lt_end
    _ ≤ (sizes.take sizes.length).sum := List.monotone_sum_take sizes h.place
    _ = sizes.sum := by rw [List.take_length]

theorem unique (h : InBlock sizes i j) (h' : InBlock sizes i' j) : i = i' := by
  rcases Nat.lt_trichotomy i i' with hlt | heq | hgt
  · have hmono : (sizes.take (i + 1)).sum ≤ (sizes.take i').sum :=
      List.monotone_sum_take sizes hlt
    have hend := h.lt_end
    have hfirst := h'.first
    omega
  · exact heq
  · have hmono : (sizes.take (i' + 1)).sum ≤ (sizes.take i).sum :=
      List.monotone_sum_take sizes hgt
    have hend := h'.lt_end
    have hfirst := h.first
    omega

end InBlock

theorem exists_inBlock (h : j < sizes.sum) : ∃ i, InBlock sizes i j := by
  induction sizes generalizing j with
  | nil => simp at h
  | cons n ns ih =>
      by_cases hj : j < n
      · exact ⟨0, by simp, by simp, by simpa using hj⟩
      · rw [List.sum_cons] at h
        obtain ⟨i, hplace, hfirst, hlast⟩ := ih (j := j - n) (by omega)
        refine ⟨i + 1, by simpa using hplace, ?_, ?_⟩
        · rw [List.take_succ_cons, List.sum_cons]
          omega
        · simp only [List.take_succ_cons, List.sum_cons, List.getElem_cons_succ]
          omega

/-- A number is found in its own block. -/
theorem InBlock.blockAt_totals (h : InBlock sizes i j) : blockAt (totals sizes) j = i := by
  have hplace : i < (totals sizes).length := by
    rw [length_totals]
    exact h.place
  apply blockAt_eq hplace
  · intro k hk
    have hmono : (sizes.take (k + 1)).sum ≤ (sizes.take i).sum :=
      List.monotone_sum_take sizes hk
    rw [getElem_totals]
    exact hmono.trans h.first
  · rw [getElem_totals]
    exact h.lt_end

theorem blockAt_totals_of_le (h : sizes.sum ≤ j) : blockAt (totals sizes) j = sizes.length := by
  have hall : ∀ e ∈ totals sizes, e ≤ j := by
    intro e he
    obtain ⟨i, hi, rfl⟩ := List.mem_map.mp he
    have hmono : (sizes.take (i + 1)).sum ≤ (sizes.take sizes.length).sum :=
      List.monotone_sum_take sizes (List.mem_range.mp hi)
    rw [List.take_length] at hmono
    exact hmono.trans h
  rw [blockAt_of_le hall, length_totals]

/-! ### Lists cut into blocks -/

theorem getElem?_splitLengths {α : Type} (xs : List α) (hi : i < sizes.length) :
    (sizes.splitLengths xs)[i]? = some ((xs.drop (sizes.take i).sum).take sizes[i]) := by
  induction sizes generalizing xs i with
  | nil => cases hi
  | cons n ns ih =>
      rw [List.splitLengths_cons]
      cases i with
      | zero => rfl
      | succ i =>
          rw [List.getElem?_cons_succ, ih _ (Nat.lt_of_succ_lt_succ hi), List.drop_drop,
            List.take_succ_cons, List.sum_cons]
          rfl

/-- One after the other the blocks make up what the sizes reach of the list. -/
theorem flatten_splitLengths {α : Type} (sizes : List Nat) (xs : List α) :
    (sizes.splitLengths xs).flatten = xs.take sizes.sum := by
  induction sizes generalizing xs with
  | nil => rfl
  | cons n ns ih =>
      rw [List.splitLengths_cons, List.flatten_cons, ih, List.sum_cons, List.take_add]

end LinearProgram
