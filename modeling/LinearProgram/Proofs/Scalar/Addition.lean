import LinearProgram.Proofs.LpText.Words
import LinearProgram.Proofs.Scalar.Packing

/-!
Addition as far as sums need it. What is added to what, and a zero in front, may make no difference;
nothing is asked of the way in which three numbers are grouped. Floats add in this way once their
two zeros are taken as equal, which is how they compare.
-/

namespace LinearProgram

/-- Under the equality `R`, which addition respects, numbers may be added either way round, and a
zero in front is not noticed. -/
structure Scalar.CommutesUpTo {κ : Type} [Scalar κ] (R : κ → κ → Prop) : Prop where
  equivalence : Equivalence R
  add_congr {u u' v v' : κ} : R u u' → R v v' → R (u + v) (u' + v')
  add_comm (u v : κ) : R (u + v) (v + u)
  zero_add (v : κ) : R (0 + v) v
  zero_congr {u v : κ} : R u v → (u == 0) = (v == 0)

theorem Scalar.CommutesUpTo.add_zero {κ : Type} [Scalar κ] {R : κ → κ → Prop}
    (hR : CommutesUpTo R) (v : κ) : R (v + 0) v :=
  hR.equivalence.trans (hR.add_comm v 0) (hR.zero_add v)

namespace Packing

open Float.Model (Format UnpackedFloat)
open Float.Model.UnpackedFloat

theorem unpacked_add_comm (f : Format) (x y : UnpackedFloat) : add f x y = add f y x := by
  cases x with
  | notANumber => cases y <;> rfl
  | infinity s =>
      cases y with
      | infinity s' => cases s <;> cases s' <;> rfl
      | _ => rfl
  | zero s =>
      cases y with
      | zero s' => cases s <;> cases s' <;> rfl
      | _ => rfl
  | finite s m e hm =>
      cases y with
      | finite s' m' e' hm' =>
          unfold add
          dsimp only
          rw [Int.min_comm e e', Int.add_comm]
      | _ => rfl

theorem float_add_comm (u v : Float) : u + v = v + u :=
  congrArg (fun x => Float.ofModel (.pack x)) (unpacked_add_comm _ _ _)

theorem eq_of_unpack_eq {u v : Float} (h : u.toModel.unpack = v.toModel.unpack) : u = v := by
  rw [← ofModel_pack_unpack u, h, ofModel_pack_unpack]

theorem unpack_of_not_isNumber {v : Float} (h : Scalar.isNumber v = false) :
    v.toModel.unpack = .notANumber := by
  have hcompare : (v.toModel.unpack.compare v.toModel.unpack == some .eq) = false := h
  cases hunpack : v.toModel.unpack with
  | notANumber => rfl
  | infinity s => rw [hunpack] at hcompare; cases s <;> cases hcompare
  | zero s => rw [hunpack] at hcompare; cases hcompare
  | finite s m e hm =>
      have hself : (compare e e).then (compare m m) = .eq :=
        Ordering.then_eq_eq.mpr ⟨Std.ReflCmp.compare_self, Std.ReflCmp.compare_self⟩
      have hequal : (UnpackedFloat.finite s m e hm).compare (.finite s m e hm) = some .eq := by
        cases s with
        | positive => exact congrArg some hself
        | negative => exact congrArg (fun o => some o.swap) hself
      rw [hunpack, hequal] at hcompare
      cases hcompare

theorem eq_or_zeros_of_compare {x y : UnpackedFloat} (h : x.compare y = some .eq) :
    x = y ∨ (∃ s, x = .zero s) ∧ ∃ s, y = .zero s := by
  cases x with
  | notANumber => cases h
  | infinity s =>
      cases y with
      | infinity s' => cases s <;> cases s' <;> first | exact .inl rfl | cases h
      | _ => cases s <;> cases h
  | zero s =>
      cases y with
      | zero s' => exact .inr ⟨⟨s, rfl⟩, s', rfl⟩
      | notANumber => cases h
      | infinity s' => cases s' <;> cases h
      | finite s' m e hm => cases s' <;> cases h
  | finite s m e hm =>
      left
      cases y with
      | finite s' m' e' hm' =>
          have hequal (h : (compare e e').then (compare m m') = .eq) : e = e' ∧ m = m' := by
            obtain ⟨he, hm⟩ := Ordering.then_eq_eq.mp h
            exact ⟨Std.LawfulEqCmp.eq_of_compare he, Std.LawfulEqCmp.eq_of_compare hm⟩
          have hparts : s = s' ∧ e = e' ∧ m = m' := by
            cases s with
            | positive =>
                cases s' with
                | positive => exact ⟨rfl, hequal (Option.some.inj h)⟩
                | negative => cases h
            | negative =>
                cases s' with
                | positive => cases h
                | negative => exact ⟨rfl, hequal (Ordering.swap_eq_eq.mp (Option.some.inj h))⟩
          obtain ⟨rfl, rfl, rfl⟩ := hparts
          rfl
      | notANumber => cases s <;> cases h
      | infinity s' => cases s <;> cases s' <;> cases h
      | zero s' => cases s <;> cases h

/-- Floats are alike when they are the same or both are zeros. -/
theorem alike_iff {u v : Float} :
    Scalar.Alike u v ↔ u = v ∨ (u == 0) = true ∧ (v == 0) = true := by
  constructor
  · rintro (h | ⟨hu, hv⟩)
    · rcases eq_or_zeros_of_compare (beq_iff_eq.mp h) with hsame | ⟨hu, hv⟩
      · exact .inl (eq_of_unpack_eq hsame)
      · exact .inr ⟨beq_zero_iff.mpr hu, beq_zero_iff.mpr hv⟩
    · left
      apply eq_of_unpack_eq
      rw [unpack_of_not_isNumber hu, unpack_of_not_isNumber hv]
  · rintro (rfl | ⟨hu, hv⟩)
    · exact .refl u
    · exact .inl (beq_of_beq_zero hu hv)

theorem alike_add_of_zeros {u u' : Float} (hu : (u == 0) = true) (hu' : (u' == 0) = true)
    (v : Float) : Scalar.Alike (u + v) (u' + v) := by
  cases hv : v == 0 with
  | false =>
      rw [add_of_beq_zero hu hv, add_of_beq_zero hu' hv]
      exact .refl v
  | true => exact alike_iff.mpr (.inr ⟨add_beq_zero hu hv, add_beq_zero hu' hv⟩)

end Packing

open Packing in
/-- Floats that compare equal, and two that are no numbers, are not told apart by addition, which
does not mind the order of two floats. -/
theorem commutesUpTo_alike : Scalar.CommutesUpTo (Scalar.Alike (κ := Float)) := by
  have hequivalence : Equivalence (Scalar.Alike (κ := Float)) := by
    refine ⟨.refl, fun {u v} h => ?_, fun {u v w} h h' => ?_⟩
    · rw [alike_iff] at h ⊢
      exact h.imp Eq.symm And.symm
    · rcases alike_iff.mp h with rfl | ⟨hu, hv⟩
      · exact h'
      · rcases alike_iff.mp h' with rfl | ⟨-, hw⟩
        · exact h
        · exact alike_iff.mpr (.inr ⟨hu, hw⟩)
  have hadd {u u' : Float} (h : Scalar.Alike u u') (v : Float) :
      Scalar.Alike (u + v) (u' + v) := by
    rcases alike_iff.mp h with rfl | ⟨hu, hu'⟩
    · exact .refl _
    · exact alike_add_of_zeros hu hu' v
  refine ⟨hequivalence, fun {u u' v v'} hu hv => ?_, fun u v => ?_, fun v => ?_, fun {u v} h => ?_⟩
  · have hright := hadd hv u'
    rw [float_add_comm v, float_add_comm v'] at hright
    exact hequivalence.trans (hadd hu v) hright
  · rw [float_add_comm]
    exact .refl _
  · cases hv : v == 0 with
    | false => exact alike_iff.mpr (.inl (zero_add_of_ne hv))
    | true => exact alike_iff.mpr (.inr ⟨by rw [zero_add_beq_zero, hv], hv⟩)
  · rcases alike_iff.mp h with rfl | ⟨hu, hv⟩
    · rfl
    · rw [hu, hv]

end LinearProgram
