import LinearProgram.Proofs.Decimal.Positional
import Mathlib.Algebra.Order.Field.Power
import Mathlib.Data.Nat.Cast.Field
import Mathlib.Tactic.FieldSimp
import Mathlib.Tactic.Linarith
import Mathlib.Tactic.Ring

/-!
What rounds to a binary fraction. The shortest decimal of `m · 2^q` lies in its span, and the spans
of two canonical fractions have no point in common, so the decimal belongs to one fraction only.
-/

namespace LinearProgram.Decimal

/-- A power with an exponent of any sign, as powers with exponents cut off at zero. -/
theorem zpow_mul_pow_toNat {b : Rat} (hb : b ≠ 0) (k : Int) :
    b ^ k * b ^ (-k).toNat = b ^ k.toNat := by
  rcases le_total 0 k with hk | hk
  · obtain ⟨n, rfl⟩ := Int.eq_ofNat_of_zero_le hk
    simp
  · obtain ⟨n, hn⟩ := Int.eq_ofNat_of_zero_le (neg_nonneg.mpr hk)
    obtain rfl : k = -(n : Int) := by omega
    rw [neg_neg, Int.toNat_natCast, Int.toNat_of_nonpos hk, zpow_neg, zpow_natCast, pow_zero]
    exact inv_mul_cancel₀ (pow_ne_zero n hb)

namespace Span

variable {s : Span} {m m' n : Nat} {q q' p : Int} {narrow narrow' : Bool} {x y : Rat}

/-- The number `x` lies in the span. -/
def Covers (s : Span) (x : Rat) : Prop :=
  if s.closed then s.low ≤ x * s.unit ∧ x * s.unit ≤ s.high
  else s.low < x * s.unit ∧ x * s.unit < s.high

theorem contains_inSteps_iff : (s.inSteps p).contains n = true ↔ s.Covers (n * 10 ^ p) := by
  have hpos : (0 : Rat) < 10 ^ (-p).toNat := by positivity
  have hscale : (n : Rat) * 10 ^ p * s.unit * 10 ^ (-p).toNat = n * (s.unit * 10 ^ p.toNat) := by
    rw [← zpow_mul_pow_toNat (by norm_num) p]
    ring
  have hle (a : Nat) : a * 10 ^ (-p).toNat ≤ n * (s.unit * 10 ^ p.toNat)
      ↔ (a : Rat) ≤ n * 10 ^ p * s.unit := by
    rw [← @Nat.cast_le Rat]
    push_cast
    rw [← hscale, mul_le_mul_iff_left₀ hpos]
  have hge (a : Nat) : n * (s.unit * 10 ^ p.toNat) ≤ a * 10 ^ (-p).toNat
      ↔ (n : Rat) * 10 ^ p * s.unit ≤ a := by
    rw [← @Nat.cast_le Rat]
    push_cast
    rw [← hscale, mul_le_mul_iff_left₀ hpos]
  unfold contains Covers inSteps
  cases s.closed with
  | true => simp only [if_true, decide_eq_true_eq, Nat.pow_eq, hle, hge]
  | false =>
      simp only [Bool.false_eq_true, if_false, decide_eq_true_eq, Nat.pow_eq, ← not_le, hle, hge]

theorem contains_of_nearest? (h : s.nearest? = some n) : s.contains n = true := by
  unfold nearest? at h
  dsimp only at h
  grind

theorem covers_search (k : Nat)
    (hlast : s.Covers (((s.inSteps p).middle / (s.inSteps p).unit : Nat) * 10 ^ p)) :
    s.Covers (s.search p k).value := by
  induction k with
  | zero => exact hlast
  | succ k ih =>
      rw [search]
      split
      · rename_i n hnearest
        exact contains_inSteps_iff.mp (contains_of_nearest? hnearest)
      · exact ih

theorem middle_ofBinary (m : Nat) (q : Int) (narrow : Bool) :
    ((ofBinary m q narrow).middle : Rat) = m * 2 ^ q * (ofBinary m q narrow).unit := by
  have hscale : (2 : Rat) ^ (q - 2) * 2 ^ (2 - q).toNat = 2 ^ (q - 2).toNat := by
    rw [← neg_sub q 2, zpow_mul_pow_toNat two_ne_zero]
  have hquarter : (2 : Rat) ^ q = 4 * 2 ^ (q - 2) := by
    rw [zpow_sub₀ two_ne_zero]
    ring
  simp only [ofBinary, Nat.pow_eq]
  push_cast
  rw [← hscale, hquarter]
  ring

theorem covers_middle (hm : 0 < m) : (ofBinary m q narrow).Covers (m * 2 ^ q) := by
  have hup : 0 < 2 ^ (q - 2).toNat := by positivity
  have hlow : (ofBinary m q narrow).low < (ofBinary m q narrow).middle := by
    refine Nat.mul_lt_mul_of_pos_right ?_ hup
    split <;> omega
  have hhigh : (ofBinary m q narrow).middle < (ofBinary m q narrow).high :=
    Nat.mul_lt_mul_of_pos_right (by omega) hup
  have hlow' : ((ofBinary m q narrow).low : Rat) < (ofBinary m q narrow).middle := by
    exact_mod_cast hlow
  have hhigh' : ((ofBinary m q narrow).middle : Rat) < (ofBinary m q narrow).high := by
    exact_mod_cast hhigh
  unfold Covers
  rw [← middle_ofBinary]
  split
  · exact ⟨hlow'.le, hhigh'.le⟩
  · exact ⟨hlow', hhigh'⟩

/-- The grid that the search ends on holds the fraction itself. -/
theorem unit_dvd_middle (m : Nat) (q : Int) (narrow : Bool) :
    ((ofBinary m q narrow).inSteps (min q 0)).unit
      ∣ ((ofBinary m q narrow).inSteps (min q 0)).middle := by
  simp only [inSteps, ofBinary, Nat.pow_eq]
  rcases le_or_gt 0 q with hq | hq
  · rw [min_eq_right hq]
    have hunit : 2 ^ (2 - q).toNat ∣ 2 ^ 2 := Nat.pow_dvd_pow 2 (by omega)
    simpa [mul_assoc] using dvd_mul_of_dvd_left hunit (m * 2 ^ (q - 2).toNat)
  · obtain ⟨n, hn⟩ := Int.eq_ofNat_of_zero_le (neg_nonneg.mpr hq.le)
    have hzero : (q - 2).toNat = 0 := by omega
    have htwo : (2 - q).toNat = n + 2 := by omega
    rw [min_eq_left hq.le, hn, hzero, htwo, Int.toNat_of_nonpos hq.le, Int.toNat_natCast,
      show 10 ^ n = 2 ^ n * 5 ^ n from Nat.mul_pow 2 5 n]
    exact ⟨m * 5 ^ n, by ring⟩

theorem covers_shortest (hm : 0 < m) :
    (ofBinary m q narrow).Covers (shortest m q narrow).value := by
  refine covers_search _ ?_
  have hunit : ((ofBinary m q narrow).unit : Rat) ≠ 0 := by
    simp [ofBinary, Nat.pow_eq]
  have hexact : (((ofBinary m q narrow).inSteps (min q 0)).middle
      / ((ofBinary m q narrow).inSteps (min q 0)).unit : Nat) * (10 : Rat) ^ min q 0
        = m * 2 ^ q := by
    have hten := zpow_mul_pow_toNat (b := 10) (by norm_num) (min q 0)
    have hne : (((ofBinary m q narrow).inSteps (min q 0)).unit : Rat) ≠ 0 := by
      simp [inSteps, ofBinary]
    rw [Nat.cast_div (unit_dvd_middle m q narrow) hne]
    simp only [inSteps, Nat.pow_eq]
    push_cast
    rw [middle_ofBinary, ← hten]
    field_simp
  rw [hexact]
  exact covers_middle hm

/-! ### Spans without a common point -/

/-- What the span of `m · 2^q` covers, counted in quarters of `2^q`. -/
structure Quarters (m : Nat) (narrow : Bool) (y : Rat) : Prop where
  le : y ≤ 4 * m + 2
  ge : 4 * m - 2 ≤ y
  ge_of_narrow : narrow = true → 4 * m - 1 ≤ y
  lt_of_odd : m % 2 = 1 → y < 4 * m + 2
  gt_of_odd : m % 2 = 1 → 4 * m - 2 < y

theorem quarters_of_covers (hm : 0 < m) (h : (ofBinary m q narrow).Covers x) :
    Quarters m narrow (x * 2 ^ (2 - q)) := by
  have hpos : (0 : Rat) < 2 ^ (q - 2).toNat := by positivity
  have hunit : x * (ofBinary m q narrow).unit = x * 2 ^ (2 - q) * 2 ^ (q - 2).toNat := by
    rw [mul_assoc, ← neg_sub 2 q, zpow_mul_pow_toNat two_ne_zero]
    simp [ofBinary]
  have hlow : ((ofBinary m q narrow).low : Rat)
      = (4 * m - if narrow then 1 else 2) * 2 ^ (q - 2).toNat := by
    simp only [ofBinary, Nat.pow_eq]
    rw [Nat.cast_mul, Nat.cast_sub (by split <;> omega)]
    push_cast
    rfl
  have hhigh : ((ofBinary m q narrow).high : Rat) = (4 * m + 2) * 2 ^ (q - 2).toNat := by
    simp [ofBinary]
  unfold Covers at h
  rw [hunit, hlow, hhigh] at h
  have hclosed : (ofBinary m q narrow).closed = true ↔ m % 2 = 0 := by simp [ofBinary]
  simp only [hclosed, mul_le_mul_iff_left₀ hpos, mul_lt_mul_iff_left₀ hpos] at h
  cases narrow with
  | true =>
      simp only [if_true] at h
      split at h
      · exact ⟨h.2, by linarith, fun _ => h.1, by omega, by omega⟩
      · exact ⟨h.2.le, by linarith, fun _ => h.1.le, fun _ => h.2, fun _ => by linarith⟩
  | false =>
      simp only [Bool.false_eq_true, if_false] at h
      split at h
      · exact ⟨h.2, h.1, by simp, by omega, by omega⟩
      · exact ⟨h.2.le, h.1.le, by simp, fun _ => h.2, fun _ => h.1⟩

/-- The fractions that floats have: 53 digits unless the exponent is the least one, and half a step
to the fraction below at powers of two. -/
structure Canonical (m : Nat) (q : Int) (narrow : Bool) : Prop where
  pos : 0 < m
  lt : m < 2 ^ 53
  least : -1074 ≤ q
  full : -1074 < q → 2 ^ 52 ≤ m
  narrow_of_eq : -1074 < q → m = 2 ^ 52 → narrow = true

theorem Quarters.le_of_both (h : Quarters m narrow y) (h' : Quarters m' narrow' y) : m' ≤ m := by
  by_contra! hlt
  have hle : (m : Rat) + 1 ≤ m' := by exact_mod_cast hlt
  have hsame : (m : Rat) + 1 = m' := by linarith [h.le, h'.ge]
  have hsucc : m + 1 = m' := by exact_mod_cast hsame
  -- neighbours meet in one point, which belongs to the even one of them
  rcases Nat.mod_two_eq_zero_or_one m with heven | hodd
  · linarith [h.le, h'.gt_of_odd (by omega)]
  · linarith [h.lt_of_odd hodd, h'.ge]

theorem Canonical.le_of_covers (h : Canonical m q narrow) (h' : Canonical m' q' narrow')
    (hx : (ofBinary m q narrow).Covers x) (hx' : (ofBinary m' q' narrow').Covers x) :
    q' ≤ q := by
  by_contra! hlt
  have hy := quarters_of_covers h.pos hx
  have hy' := quarters_of_covers h'.pos hx'
  have hfull := h'.full (h.least.trans_lt hlt)
  have hstep : (2 : Rat) ≤ 2 ^ (q' - q) := by
    calc (2 : Rat) = 2 ^ (1 : Int) := (zpow_one 2).symm
      _ ≤ 2 ^ (q' - q) := zpow_le_zpow_right₀ one_le_two (by omega)
  have hscale : x * 2 ^ (2 - q) = x * 2 ^ (2 - q') * 2 ^ (q' - q) := by
    rw [mul_assoc, ← zpow_add₀ two_ne_zero]
    congr 2
    omega
  have hone : (1 : Rat) ≤ m' := by exact_mod_cast h'.pos
  have hdouble : 2 * (x * 2 ^ (2 - q')) ≤ x * 2 ^ (2 - q) := by
    rw [hscale, mul_comm 2]
    exact mul_le_mul_of_nonneg_left hstep (by linarith [hy'.ge])
  have hm : (m : Rat) + 1 ≤ 2 ^ 53 := by exact_mod_cast h.lt
  rcases hfull.eq_or_lt with hleast | hmore
  · -- the upper end of the greatest fraction, an odd one, is the lower end of the next
    have hnarrow := hy'.ge_of_narrow (h'.narrow_of_eq (h.least.trans_lt hlt) hleast.symm)
    have hm' : (2 : Rat) ^ 52 = m' := by exact_mod_cast hleast
    have hsame : (m : Rat) + 1 = 2 ^ 53 := by linarith [hy.le]
    have hsucc : m + 1 = 2 ^ 53 := by exact_mod_cast hsame
    linarith [hy.lt_of_odd (by omega)]
  · have hm' : (2 : Rat) ^ 52 + 1 ≤ m' := by exact_mod_cast hmore
    linarith [hy.le, hy'.ge]

/-- A number lies in the span of one canonical fraction only. -/
theorem Canonical.eq_of_covers (h : Canonical m q narrow) (h' : Canonical m' q' narrow')
    (hx : (ofBinary m q narrow).Covers x) (hx' : (ofBinary m' q' narrow').Covers x) :
    m = m' ∧ q = q' := by
  have hq : q = q' := le_antisymm (h'.le_of_covers h hx' hx) (h.le_of_covers h' hx hx')
  have hy := quarters_of_covers h.pos hx
  have hy' := quarters_of_covers h'.pos hx'
  rw [← hq] at hy'
  exact ⟨le_antisymm (hy'.le_of_both hy) (hy.le_of_both hy'), hq⟩

theorem pos_of_covers (hm : 0 < m) (h : (ofBinary m q narrow).Covers x) : 0 < x := by
  have hone : (1 : Rat) ≤ m := by exact_mod_cast hm
  have hquarters := (quarters_of_covers hm h).ge
  have hpos : (0 : Rat) < 2 ^ (2 - q) := by positivity
  exact pos_of_mul_pos_left (by linarith) hpos.le

end Span

end LinearProgram.Decimal
