import LinearProgram.Proofs.Decimal.Span
import LinearProgram.Proofs.Scalar.Packing
import Mathlib.Tactic.LinearCombination

/-!
Order of floats and whole floats. Two floats that are numbers are comparable, so that one is not at
most another just when it is greater. A float counts as whole when it is finite and its exact value
is an integer.
-/

namespace LinearProgram

namespace Packing

open Float.Model (UnpackedFloat)
open Float.Model.UnpackedFloat

variable {u v : Float}

/-- Seen from the other side a comparison comes out the other way round. -/
theorem compare_swap (x y : UnpackedFloat) : y.compare x = (x.compare y).map Ordering.swap := by
  cases x with
  | notANumber => cases y <;> rfl
  | infinity s =>
      cases y with
      | infinity s' => cases s <;> cases s' <;> rfl
      | _ => cases s <;> rfl
  | zero s =>
      cases y with
      | infinity s' => cases s' <;> rfl
      | finite s' m e hm => cases s' <;> rfl
      | _ => rfl
  | finite s m e hm =>
      cases y with
      | infinity s' => cases s <;> cases s' <;> rfl
      | finite s' m' e' hm' =>
          have hpairs : ((compare e e').then (compare m m')).swap
              = (compare e' e).then (compare m' m) := by
            rw [Ordering.swap_then, ← Std.OrientedCmp.eq_swap, ← Std.OrientedCmp.eq_swap]
          cases s with
          | positive =>
              cases s' with
              | positive => exact congrArg some hpairs.symm
              | negative => rfl
          | negative =>
              cases s' with
              | positive => rfl
              | negative => exact congrArg (fun o => some o.swap) hpairs.symm
      | _ => cases s <;> rfl

theorem unpack_ne_of_isNumber (h : Scalar.isNumber v = true) :
    v.toModel.unpack ≠ .notANumber := by
  intro hnan
  have hcompare : (v.toModel.unpack.compare v.toModel.unpack == some .eq) = true := h
  rw [hnan] at hcompare
  cases hcompare

theorem exists_compare {x y : UnpackedFloat} (hx : x ≠ .notANumber) (hy : y ≠ .notANumber) :
    ∃ o, x.compare y = some o := by
  cases x with
  | notANumber => exact absurd rfl hx
  | infinity s =>
      cases y with
      | notANumber => exact absurd rfl hy
      | _ => cases s <;> exact ⟨_, rfl⟩
  | zero s =>
      cases y with
      | notANumber => exact absurd rfl hy
      | zero s' => exact ⟨_, rfl⟩
      | _ s' => cases s' <;> exact ⟨_, rfl⟩
  | finite s m e hm =>
      cases y with
      | notANumber => exact absurd rfl hy
      | zero s' => cases s <;> exact ⟨_, rfl⟩
      | _ s' => cases s <;> cases s' <;> exact ⟨_, rfl⟩

theorem lt_iff_compare : u < v ↔ u.toModel.unpack.compare v.toModel.unpack = some .lt := by
  have hlt : u < v ↔ u.toModel.unpack.lt v.toModel.unpack = true := decide_eq_true_iff
  rw [hlt, UnpackedFloat.lt, beq_iff_eq]

theorem le_iff_compare :
    u ≤ v ↔ (u.toModel.unpack.compare v.toModel.unpack).any (·.isLE) = true :=
  decide_eq_true_iff

theorem le_of_lt (h : u < v) : u ≤ v := by
  rw [le_iff_compare, lt_iff_compare.mp h]
  rfl

/-- Of two numbers one is greater, or the other is at least as great. -/
theorem not_le_iff (hu : Scalar.isNumber u = true) (hv : Scalar.isNumber v = true) :
    ¬u ≤ v ↔ v < u := by
  obtain ⟨o, ho⟩ := exists_compare (unpack_ne_of_isNumber hu) (unpack_ne_of_isNumber hv)
  rw [lt_iff_compare, le_iff_compare, compare_swap u.toModel.unpack, ho]
  cases o <;> decide

theorem not_lt_iff (hu : Scalar.isNumber u = true) (hv : Scalar.isNumber v = true) :
    ¬u < v ↔ v ≤ u := by
  rw [← not_le_iff hv hu, not_not]

end Packing

/-! ### Whole numbers -/

namespace Double

/-- The exact value of a finite float. -/
def value (d : Double) : Rat :=
  (if d.negative then -1 else 1) * (d.mantissa * 2 ^ d.exponent)

/-- Finite, with an integer for its value. -/
structure Whole (d : Double) : Prop where
  finite : d.special = false
  integral : ∃ i : Int, d.value = i

theorem integral_iff (d : Double) :
    (∃ i : Int, d.value = i) ↔ 2 ^ (-d.exponent).toNat ∣ d.mantissa := by
  have hscale := Decimal.zpow_mul_pow_toNat (b := 2) (by norm_num) d.exponent
  obtain ⟨s, hs, hsquare⟩ : ∃ s : Int, d.value = s * (d.mantissa * 2 ^ d.exponent) ∧ s * s = 1 := by
    unfold value
    split
    · exact ⟨-1, by push_cast; rfl, rfl⟩
    · exact ⟨1, by push_cast; rfl, rfl⟩
  have hsquare' : (s : Rat) * s = 1 := by exact_mod_cast hsquare
  rw [hs]
  constructor
  · rintro ⟨i, hi⟩
    rcases le_total 0 d.exponent with hexponent | hexponent
    · rw [Int.toNat_of_nonpos (by omega), pow_zero]
      exact one_dvd _
    · rw [Int.toNat_of_nonpos hexponent, pow_zero] at hscale
      have hmantissa : (d.mantissa : Rat) = 2 ^ (-d.exponent).toNat * (s * i) := by
        rw [← hi]
        linear_combination -(d.mantissa : Rat) * s * s * hscale - d.mantissa * hsquare'
      have hint : (d.mantissa : Int) = (2 ^ (-d.exponent).toNat : Nat) * (s * i) := by
        exact_mod_cast hmantissa
      exact Int.natCast_dvd_natCast.mp ⟨_, hint⟩
  · rintro ⟨q, hq⟩
    refine ⟨s * (q * 2 ^ d.exponent.toNat), ?_⟩
    rw [hq]
    push_cast
    linear_combination (s : Rat) * q * hscale

theorem isWhole_iff (d : Double) : d.isWhole = true ↔ d.Whole := by
  have hmod : (d.mantissa % Nat.pow 2 (-d.exponent).toNat = 0) ↔ ∃ i : Int, d.value = i := by
    rw [integral_iff, Nat.dvd_iff_mod_eq_zero]
    rfl
  rw [isWhole, Bool.and_eq_true, Bool.not_eq_true', decide_eq_true_iff, hmod]
  exact ⟨fun h => ⟨h.1, h.2⟩, fun h => ⟨h.finite, h.integral⟩⟩

end Double

end LinearProgram
