import LinearProgram.Proofs.Outcome
import LinearProgram.Shape.Basic
import Mathlib.Algebra.BigOperators.Ring.List
import Mathlib.Tactic.Ring

/-!
Offsets as mixed-radix numbers. The coordinates of a product space and the numbers below its size
are the same thing written in two ways: `Shape.offset` reads a number off its digits, and
`Shape.decode` splits a number into them.
-/

namespace LinearProgram.Shape

/-- The number that coordinates write: each of them counts for as many elements as the dimensions
behind it have together. -/
def linear : Shape → List Nat → Nat
  | _ :: ds, i :: is => i * ds.prod + linear ds is
  | _, _ => 0

variable {d : Shape} {coords : List Nat}

theorem contains_iff_forall₂ : d.Contains coords ↔ List.Forall₂ (· < ·) coords d := by
  rw [List.forall₂_iff_zip]
  constructor
  · rintro ⟨hlength, hbelow⟩
    exact ⟨hlength, fun hmem => hbelow _ hmem⟩
  · rintro ⟨hlength, hbelow⟩
    exact ⟨hlength, fun _ hmem => hbelow hmem⟩

theorem linear_lt_prod (h : d.Contains coords) : d.linear coords < d.prod := by
  rw [contains_iff_forall₂] at h
  induction h with
  | nil => simp [linear]
  | @cons i n is ds hi _ ih =>
      rw [linear, List.prod_cons]
      calc
        i * ds.prod + linear ds is < i * ds.prod + ds.prod := Nat.add_lt_add_left ih _
        _ = (i + 1) * ds.prod := (Nat.succ_mul i ds.prod).symm
        _ ≤ n * ds.prod := Nat.mul_le_mul_right ds.prod hi

/-! ### Sizes and offsets within a machine word -/

theorem foldlM_mul_eq_ok {p n : Nat} (hp : p < Word.limit)
    (h : d.foldlM Word.mul p = .ok n) : p * d.prod = n ∧ n < Word.limit := by
  induction d generalizing p with
  | nil =>
      cases h
      exact ⟨by rw [List.prod_nil, Nat.mul_one], hp⟩
  | cons m ds ih =>
      rw [List.foldlM_cons] at h
      obtain ⟨q, hq, hrest⟩ := Outcome.bind_eq_ok_iff.mp h
      obtain ⟨hfit, rfl⟩ := Word.mul_eq_ok_iff.mp hq
      rw [List.prod_cons, ← Nat.mul_assoc]
      exact ih hfit hrest

theorem count_eq_ok {n : Nat} (h : d.count = .ok n) : d.prod = n ∧ n < Word.limit := by
  have hcount := foldlM_mul_eq_ok (by decide : 1 < Word.limit) h
  rwa [Nat.one_mul] at hcount

theorem foldlM_mul_eq_error {p : Nat} {e : Failure} (h : d.foldlM Word.mul p = .error e) :
    e = .trap .mulOverflow ∧ ∃ i, Word.limit ≤ p * (d.take i).prod := by
  induction d generalizing p with
  | nil => cases h
  | cons m ds ih =>
      rw [List.foldlM_cons] at h
      rcases Outcome.bind_eq_error_iff.mp h with hfirst | ⟨q, hq, hrest⟩
      · obtain ⟨hlong, heq⟩ := Outcome.check_eq_error_iff.mp hfirst
        refine ⟨heq, 1, ?_⟩
        rw [List.take_succ_cons, List.take_zero, List.prod_singleton]
        exact Nat.le_of_not_lt hlong
      · obtain ⟨-, rfl⟩ := Word.mul_eq_ok_iff.mp hq
        obtain ⟨heq, i, hlong⟩ := ih hrest
        refine ⟨heq, i + 1, ?_⟩
        rwa [List.take_succ_cons, List.prod_cons, ← Nat.mul_assoc]

/-- Counting fails when the product of some leading sizes does not fit into a word, even if a later
size is zero. -/
theorem count_eq_error {e : Failure} (h : d.count = .error e) :
    e = .trap .mulOverflow ∧ ∃ i, Word.limit ≤ (d.take i).prod := by
  obtain ⟨heq, i, hlong⟩ := foldlM_mul_eq_error h
  rw [Nat.one_mul] at hlong
  exact ⟨heq, i, hlong⟩

theorem prod_take_of_foldlM {p n : Nat} (hp : p < Word.limit) (h : d.foldlM Word.mul p = .ok n)
    (i : Nat) : p * (d.take i).prod < Word.limit := by
  induction d generalizing p i with
  | nil => rwa [List.take_nil, List.prod_nil, Nat.mul_one]
  | cons m ds ih =>
      rw [List.foldlM_cons] at h
      obtain ⟨q, hq, hrest⟩ := Outcome.bind_eq_ok_iff.mp h
      obtain ⟨hfit, rfl⟩ := Word.mul_eq_ok_iff.mp hq
      cases i with
      | zero => rwa [List.take_zero, List.prod_nil, Nat.mul_one]
      | succ i =>
          rw [List.take_succ_cons, List.prod_cons, ← Nat.mul_assoc]
          exact ih hfit hrest i

/-- Counting succeeds just when the product of every number of leading sizes fits into a word. -/
theorem count_eq_ok_iff {n : Nat} :
    d.count = .ok n ↔ n = d.prod ∧ ∀ i, (d.take i).prod < Word.limit := by
  constructor
  · intro h
    refine ⟨(count_eq_ok h).1.symm, fun i => ?_⟩
    have hfit := prod_take_of_foldlM (by decide : 1 < Word.limit) h i
    rwa [Nat.one_mul] at hfit
  · rintro ⟨rfl, hfit⟩
    cases hcount : d.count with
    | error e =>
        obtain ⟨-, i, hlong⟩ := count_eq_error hcount
        exact absurd (hfit i) (Nat.not_lt.mpr hlong)
    | ok n => rw [(count_eq_ok hcount).1]

/-- Reading on from the number `acc` written so far. A dimension that contains a coordinate is not
empty, so what has been read never exceeds the whole. -/
theorem foldlM_offset (acc : Nat) (h : d.Contains coords)
    (hfit : acc * d.prod + d.linear coords < Word.limit) :
    (coords.zip d).foldlM (fun acc (i, n) => do Word.add (← Word.mul acc n) i) acc
      = (.ok (acc * d.prod + d.linear coords) : Outcome Nat) := by
  rw [contains_iff_forall₂] at h
  induction h generalizing acc with
  | nil => simp [linear]
  | @cons i n is ds hi hrest ih =>
      have hwhole : acc * (n :: ds).prod + linear (n :: ds) (i :: is)
          = (acc * n + i) * ds.prod + linear ds is := by
        rw [List.prod_cons, linear]
        ring
      have hpos : 1 ≤ ds.prod :=
        Nat.one_le_of_lt (linear_lt_prod (contains_iff_forall₂.mpr hrest))
      have hread : acc * n + i < Word.limit := by
        have hle : acc * n + i ≤ (acc * n + i) * ds.prod := Nat.le_mul_of_pos_right _ hpos
        omega
      have hmul : Word.mul acc n = .ok (acc * n) :=
        Word.mul_eq_ok_iff.mpr ⟨by omega, rfl⟩
      have hadd : Word.add (acc * n) i = .ok (acc * n + i) :=
        Word.add_eq_ok_iff.mpr ⟨hread, rfl⟩
      rw [hwhole] at hfit ⊢
      rw [List.zip_cons_cons, List.foldlM_cons]
      simp only [hmul, hadd, Outcome.ok_bind]
      exact ih _ hfit

theorem offset_eq_linear (h : d.Contains coords) (hfit : d.linear coords < Word.limit) :
    d.offset coords = .ok (d.linear coords) := by
  have hread := foldlM_offset 0 h (by rwa [Nat.zero_mul, Nat.zero_add])
  rwa [Nat.zero_mul, Nat.zero_add] at hread

/-! ### Splitting a number into coordinates -/

theorem digits_linear (h : d.Contains coords) (q : Nat) :
    d.digits (q * d.prod + d.linear coords) = .ok (coords, q) := by
  rw [contains_iff_forall₂] at h
  induction h generalizing q with
  | nil => simp [digits, linear]
  | @cons i n is ds hi _ ih =>
      have hwhole : q * (n :: ds).prod + linear (n :: ds) (i :: is)
          = (q * n + i) * ds.prod + linear ds is := by
        rw [List.prod_cons, linear]
        ring
      have hdigit : (q * n + i) % n = i := by
        rw [Nat.mul_add_mod_self_right, Nat.mod_eq_of_lt hi]
      have hrest : (q * n + i) / n = q := by
        rw [Nat.mul_comm, Nat.mul_add_div (by omega), Nat.div_eq_of_lt hi, Nat.add_zero]
      rw [hwhole, digits, ih, Outcome.ok_bind]
      simp only [hdigit, hrest, if_neg (show n ≠ 0 by omega)]

theorem decode_linear (h : d.Contains coords) : d.decode (d.linear coords) = .ok coords := by
  have hdigits := digits_linear h 0
  rw [Nat.zero_mul, Nat.zero_add] at hdigits
  rw [decode, hdigits]
  rfl

theorem exists_linear_eq_mod (hpos : 0 ∉ d) (k : Nat) :
    ∃ coords, d.Contains coords ∧ d.linear coords = k % d.prod := by
  induction d with
  | nil => exact ⟨[], by decide, by simp [linear, Nat.mod_one]⟩
  | cons n ds ih =>
      rw [List.mem_cons, not_or] at hpos
      obtain ⟨is, hcontains, hlinear⟩ := ih hpos.2
      refine ⟨k / ds.prod % n :: is, ?_, ?_⟩
      · rw [contains_iff_forall₂] at hcontains ⊢
        exact .cons (Nat.mod_lt _ (by omega)) hcontains
      · rw [linear, hlinear, List.prod_cons, Nat.mul_comm n, Nat.mod_mul]
        ring

theorem exists_linear_eq {k : Nat} (hk : k < d.prod) :
    ∃ coords, d.Contains coords ∧ d.linear coords = k := by
  have hpos : 0 ∉ d := by
    intro hzero
    rw [List.prod_eq_zero hzero] at hk
    omega
  obtain ⟨coords, hcontains, hlinear⟩ := exists_linear_eq_mod hpos k
  exact ⟨coords, hcontains, by rw [hlinear, Nat.mod_eq_of_lt hk]⟩

/-! ### All elements in order -/

theorem flatMap_range_add (n k : Nat) :
    (List.range n).flatMap (fun i => (List.range k).map (i * k + ·)) = List.range (n * k) := by
  induction n with
  | zero => rw [Nat.zero_mul]; rfl
  | succ n ih =>
      rw [List.range_succ, List.flatMap_append, ih, List.flatMap_singleton, Nat.succ_mul,
        List.range_add]

/-- In row-major order the elements have the offsets from zero on. -/
theorem map_linear_grid (d : Shape) : d.grid.map d.linear = List.range d.prod := by
  induction d with
  | nil => rfl
  | cons n ds ih =>
      have hblock (i : Nat) : ((grid ds).map (i :: ·)).map (linear (n :: ds))
          = (List.range ds.prod).map (i * ds.prod + ·) := by
        rw [← ih, List.map_map, List.map_map]
        rfl
      rw [grid, List.map_flatMap]
      simp only [hblock]
      rw [flatMap_range_add, List.prod_cons]

theorem mem_grid_iff : coords ∈ d.grid ↔ d.Contains coords := by
  rw [contains_iff_forall₂]
  induction d generalizing coords with
  | nil => simp [grid]
  | cons n ds ih =>
      simp only [grid, List.mem_flatMap, List.mem_range, List.mem_map, ih]
      constructor
      · rintro ⟨i, hi, is, his, rfl⟩
        exact .cons hi his
      · intro h
        cases h with
        | cons hi his => exact ⟨_, hi, _, his, rfl⟩

theorem length_grid (d : Shape) : d.grid.length = d.prod := by
  rw [← List.length_map, map_linear_grid, List.length_range]

/-- Each element stands at the place of its offset. -/
theorem getElem?_grid_iff {k : Nat} :
    d.grid[k]? = some coords ↔ d.Contains coords ∧ d.linear coords = k := by
  have hplace : ∀ {k coords}, d.grid[k]? = some coords → d.linear coords = k := by
    intro k coords hk
    have hlinear : (d.grid.map d.linear)[k]? = some (d.linear coords) := by
      rw [List.getElem?_map, hk]
      rfl
    rw [map_linear_grid, List.getElem?_eq_some_iff] at hlinear
    obtain ⟨hlt, heq⟩ := hlinear
    rw [← heq, List.getElem_range]
  constructor
  · exact fun hk => ⟨mem_grid_iff.mp (List.mem_of_getElem? hk), hplace hk⟩
  · rintro ⟨hcontains, rfl⟩
    obtain ⟨k, hk⟩ := List.mem_iff_getElem?.mp (mem_grid_iff.mpr hcontains)
    rwa [hplace hk]

end LinearProgram.Shape
