import LinearProgram.Scalar.Double
import Mathlib.Algebra.Group.Nat.Defs

/-!
Floats and their bits. A float is the packing of what it unpacks to, so whatever an operation leaves
as it was unpacked comes back as the same float: a number other than zero that is added to zero, and
a number that is negated twice.
-/

namespace LinearProgram.Packing

open Float.Model (Format UnpackedFloat)
open Float.Model.UnpackedFloat

theorem toBitVec_ofBitVec (s : BitVec 1) : (Sign.ofBitVec s).toBitVec = s := by
  revert s
  decide

section Components

variable {b : BitVec Format.binary64.numBits} {e : BitVec Format.binary64.exponentBits}
  {m : BitVec Format.binary64.mantissaBitsWithoutImplicit} {s : Sign}

theorem packComponents_unpack (b : BitVec Format.binary64.numBits) :
    packComponents .binary64 (Sign.ofBitVec (unpackSign b)) (unpackExponent b) (unpackMantissa b)
      = b := by
  rw [packComponents, toBitVec_ofBitVec]
  apply BitVec.eq_of_getLsbD_eq
  intro i hi
  unfold unpackSign unpackExponent unpackMantissa
  simp only [BitVec.getLsbD_append, BitVec.getLsbD_cast, BitVec.getLsbD_extractLsb]
  grind

theorem eq_of_append_eq {w w' : Nat} {x x' : BitVec w} {y y' : BitVec w'}
    (h : x ++ y = x' ++ y') : x = x' ∧ y = y' := by
  have hhigh := congrArg (BitVec.extractLsb' w' w) h
  rw [BitVec.extractLsb'_append_eq_left, BitVec.extractLsb'_append_eq_left] at hhigh
  subst hhigh
  exact ⟨rfl, (BitVec.append_right_inj x).mp h⟩

theorem packComponents_inj {s' : Sign} {e' : BitVec Format.binary64.exponentBits}
    {m' : BitVec Format.binary64.mantissaBitsWithoutImplicit}
    (h : packComponents .binary64 s e m = packComponents .binary64 s' e' m') :
    s = s' ∧ e = e' ∧ m = m' := by
  obtain ⟨hhigh, hm⟩ := eq_of_append_eq h
  obtain ⟨hs, he⟩ := eq_of_append_eq hhigh
  have hsign : s = s' := by
    cases s <;> cases s' <;> simp [Sign.toBitVec] at hs ⊢
  exact ⟨hsign, he, hm⟩

theorem toNat_one_append (m : BitVec Format.binary64.mantissaBitsWithoutImplicit) :
    (1#1 ++ m).toNat = 2 ^ 52 + m.toNat := by
  rw [BitVec.toNat_append, ← Nat.shiftLeft_add_eq_or_of_lt m.isLt]
  rfl

theorem pack_subnormal (hpos : 0 < m.toNat) :
    pack .binary64 (.finite s m.toNat (-1074) hpos) = packComponents .binary64 s 0 m := by
  have hlt : m.toNat < 2 ^ 52 := m.isLt
  have hlog : m.toNat.log2 < 52 := (Nat.log2_lt (Nat.ne_of_gt hpos)).mpr hlt
  have hbits : m.toNat.log2 + 1 ≠ Format.binary64.mantissaBits := by
    change _ ≠ 53
    omega
  unfold pack
  dsimp only
  rw [if_neg (by decide), if_neg hbits, BitVec.ofNat_toNat, BitVec.setWidth_eq]
  rfl

theorem pack_normal (htop : e.toNat + 1 < 2 ^ 11)
    (hpos : 0 < (1#1 ++ m).toNat) :
    pack .binary64 (.finite s (1#1 ++ m).toNat (e.toNat - 1075) hpos)
      = packComponents .binary64 s e m := by
  have hlt : m.toNat < 2 ^ 52 := m.isLt
  have hlog : (1#1 ++ m).toNat.log2 = 52 := by
    rw [Nat.log2_eq_iff (Nat.ne_of_gt hpos), toNat_one_append]
    omega
  have hbits : (1#1 ++ m).toNat.log2 + 1 = Format.binary64.mantissaBits := by rw [hlog]; rfl
  have hbiased : ((e.toNat : Int) - 1075 + Format.binary64.exponentBias
      + Format.binary64.mantissaBitsWithoutImplicit).toNat = e.toNat := by
    change ((e.toNat : Int) - 1075 + (1023 : Nat) + (52 : Nat)).toNat = e.toNat
    omega
  have hmantissa : BitVec.ofNat Format.binary64.mantissaBitsWithoutImplicit (1#1 ++ m).toNat
      = m := by
    apply BitVec.eq_of_toNat_eq
    rw [BitVec.toNat_ofNat, toNat_one_append]
    change (2 ^ 52 + m.toNat) % 2 ^ 52 = m.toNat
    omega
  unfold pack
  dsimp only
  rw [hbiased, if_neg (by omega), if_pos hbits, hmantissa,
    BitVec.ofNat_toNat, BitVec.setWidth_eq]

end Components

theorem unpack_subnormal {b : BitVec Format.binary64.numBits} (he : unpackExponent b = 0#_)
    (hm : unpackMantissa b ≠ 0#_) :
    ∃ hpos, unpack .binary64 b
      = .finite (Sign.ofBitVec (unpackSign b)) (unpackMantissa b).toNat (-1074) hpos := by
  have hpos : 0 < (unpackMantissa b).toNat := by
    simpa [BitVec.toNat_pos, BitVec.pos_iff_ne_zero] using hm
  refine ⟨hpos, ?_⟩
  unfold unpack
  dsimp only
  rw [he, if_neg (by decide), if_pos rfl, dif_neg hm]
  rfl

theorem unpack_normal {b : BitVec Format.binary64.numBits} (hzero : unpackExponent b ≠ 0#_)
    (htop : unpackExponent b ≠ -1#_) :
    ∃ hpos, unpack .binary64 b
      = .finite (Sign.ofBitVec (unpackSign b)) (1#1 ++ unpackMantissa b).toNat
        ((unpackExponent b).toNat - 1075) hpos := by
  refine ⟨by rw [toNat_one_append]; omega, ?_⟩
  unfold unpack
  dsimp only
  rw [if_neg htop, if_neg hzero]
  rfl

/-- All exponent bits set and a fraction. -/
def IsNaN (b : BitVec Format.binary64.numBits) : Prop :=
  unpackExponent b = -1#_ ∧ unpackMantissa b ≠ 0#_

theorem unpack_of_isNaN {b : BitVec Format.binary64.numBits} (h : IsNaN b) :
    unpack .binary64 b = .notANumber := by
  unfold unpack
  dsimp only
  rw [if_pos h.1, if_neg h.2]

/-- Bits that are no NaN unpack to their sign with something that packs, under either sign, into
the same exponent and fraction. -/
theorem exists_signed {b : BitVec Format.binary64.numBits} (h : ¬IsNaN b) :
    ∃ f : Sign → UnpackedFloat, unpack .binary64 b = f (Sign.ofBitVec (unpackSign b))
      ∧ (∀ s, (f s).neg = f (-s))
      ∧ ∀ s, pack .binary64 (f s) = packComponents .binary64 s (unpackExponent b)
        (unpackMantissa b) := by
  by_cases htop : unpackExponent b = -1#_
  · have hm : unpackMantissa b = 0#_ := Decidable.not_not.mp fun hm => h ⟨htop, hm⟩
    refine ⟨.infinity, ?_, fun s => rfl, fun s => by rw [htop, hm]; rfl⟩
    unfold unpack
    dsimp only
    rw [if_pos htop, if_pos hm]
  by_cases hzero : unpackExponent b = 0#_
  · by_cases hm : unpackMantissa b = 0#_
    · refine ⟨.zero, ?_, fun s => rfl, fun s => by rw [hzero, hm]; rfl⟩
      unfold unpack
      dsimp only
      rw [if_neg htop, if_pos hzero, dif_pos hm]
    · obtain ⟨hpos, hunpack⟩ := unpack_subnormal hzero hm
      refine ⟨(.finite · _ _ hpos), hunpack, fun s => rfl, fun s => ?_⟩
      rw [pack_subnormal, hzero]
      rfl
  · obtain ⟨hpos, hunpack⟩ := unpack_normal hzero htop
    have htop' : (unpackExponent b).toNat ≠ 2 ^ 11 - 1 := fun heq =>
      htop (BitVec.eq_of_toNat_eq heq)
    have hlt : (unpackExponent b).toNat < 2 ^ 11 := (unpackExponent b).isLt
    exact ⟨(.finite · _ _ hpos), hunpack, fun s => rfl, fun s => pack_normal (by omega) hpos⟩

theorem pack_unpack {b : BitVec Format.binary64.numBits} (h : Format.binary64.Valid b) :
    pack .binary64 (unpack .binary64 b) = b := by
  by_cases hnan : IsNaN b
  · rw [unpack_of_isNaN hnan]
    exact (h.eq_packedNaN hnan.1 hnan.2).symm
  · obtain ⟨f, hunpack, -, hpack⟩ := exists_signed hnan
    rw [hunpack, hpack, packComponents_unpack]

theorem pack_neg_unpack {b : BitVec Format.binary64.numBits} (h : ¬IsNaN b) :
    pack .binary64 (unpack .binary64 b).neg
      = packComponents .binary64 (-Sign.ofBitVec (unpackSign b)) (unpackExponent b)
        (unpackMantissa b) := by
  obtain ⟨f, hunpack, hneg, hpack⟩ := exists_signed h
  rw [hunpack, hneg, hpack]

/-! ### Floats by their bits -/

theorem toNat_unpackExponent (b : BitVec Format.binary64.numBits) :
    (unpackExponent b).toNat = b.toNat / 2 ^ 52 % 2 ^ 11 := by
  rw [unpackExponent, BitVec.toNat_cast, BitVec.extractLsb_toNat, Nat.shiftRight_eq_div_pow]
  rfl

theorem toNat_unpackMantissa (b : BitVec Format.binary64.numBits) :
    (unpackMantissa b).toNat = b.toNat % 2 ^ 52 := by
  rw [unpackMantissa, BitVec.toNat_cast, BitVec.extractLsb_toNat, Nat.shiftRight_eq_div_pow]
  simp

theorem isNaN_iff (b : BitVec Format.binary64.numBits) :
    IsNaN b ↔ b.toNat / 2 ^ 52 % 2 ^ 11 = 2047 ∧ b.toNat % 2 ^ 52 ≠ 0 := by
  rw [IsNaN, ← BitVec.toNat_inj, Ne, ← BitVec.toNat_inj, toNat_unpackExponent,
    toNat_unpackMantissa]
  rfl

/-- The bits of a float. -/
def bits (v : Float) : BitVec Format.binary64.numBits := v.toModel.toBits.toBitVec

theorem eq_of_bits_eq {u v : Float} (h : bits u = bits v) : u = v := by
  obtain ⟨⟨ubits, hu⟩⟩ := u
  obtain ⟨⟨vbits, hv⟩⟩ := v
  obtain rfl : ubits = vbits := UInt64.toBitVec_inj.mp h
  rfl

theorem ofModel_pack_unpack (v : Float) : .ofModel (.pack v.toModel.unpack) = v :=
  eq_of_bits_eq (pack_unpack v.toModel.valid)

/-- There is one NaN among the floats. -/
theorem eq_of_isNaN {u v : Float} (hu : IsNaN (bits u)) (hv : IsNaN (bits v)) : u = v := by
  apply eq_of_bits_eq
  rw [bits, u.toModel.valid.eq_packedNaN hu.1 hu.2, bits, v.toModel.valid.eq_packedNaN hv.1 hv.2]

theorem not_isNaN_of_neg {v : Float} (h : v < 0) : ¬IsNaN (bits v) := by
  intro hnan
  have hlt : v.toModel.unpack.lt (0 : Float).toModel.unpack = true := of_decide_eq_true h
  rw [Float.Model.unpack, ← bits, unpack_of_isNaN hnan] at hlt
  cases hlt

theorem eq_of_neg_eq {u v : Float} (hu : u < 0) (hv : v < 0) (h : -u = -v) : u = v := by
  have hbits : pack .binary64 (unpack .binary64 (bits u)).neg
      = pack .binary64 (unpack .binary64 (bits v)).neg :=
    congrArg bits h
  have hsign {s s' : Sign} (h : -s = -s') : s = s' := by
    cases s <;> cases s' <;> first | rfl | cases h
  rw [pack_neg_unpack (not_isNaN_of_neg hu), pack_neg_unpack (not_isNaN_of_neg hv)] at hbits
  obtain ⟨hs, he, hm⟩ := packComponents_inj hbits
  apply eq_of_bits_eq
  rw [← packComponents_unpack (bits u), ← packComponents_unpack (bits v), hsign hs, he, hm]

/-! ### Arithmetic that leaves a float as it was unpacked -/

theorem unpack_zero : (0 : Float).toModel.unpack = .zero .positive := by
  rfl

theorem beq_zero_iff {v : Float} : (v == 0) = true ↔ ∃ s, v.toModel.unpack = .zero s := by
  change (v.toModel.unpack.compare (0 : Float).toModel.unpack == some .eq) = true ↔ _
  rw [unpack_zero]
  constructor
  · intro h
    cases hunpack : v.toModel.unpack with
    | zero s => exact ⟨s, rfl⟩
    | notANumber => rw [hunpack] at h; cases h
    | infinity s => rw [hunpack] at h; cases s <;> cases h
    | finite s m e hm => rw [hunpack] at h; cases s <;> cases h
  · rintro ⟨s, hs⟩
    rw [hs]
    rfl

/-- There are two zeros, and no other float equals them. -/
theorem beq_zero_iff_eq {v : Float} : (v == 0) = true ↔ v = 0 ∨ v = -0 := by
  constructor
  · intro h
    obtain ⟨s, hs⟩ := beq_zero_iff.mp h
    rw [← ofModel_pack_unpack v, hs]
    cases s with
    | positive => exact .inl rfl
    | negative => exact .inr rfl
  · rintro (rfl | rfl)
    · exact beq_zero_iff.mpr ⟨.positive, rfl⟩
    · exact beq_zero_iff.mpr ⟨.negative, rfl⟩

theorem beq_of_beq_zero {u v : Float} (hu : (u == 0) = true) (hv : (v == 0) = true) :
    (u == v) = true := by
  obtain ⟨s, hs⟩ := beq_zero_iff.mp hu
  obtain ⟨s', hs'⟩ := beq_zero_iff.mp hv
  change (u.toModel.unpack.compare v.toModel.unpack == some .eq) = true
  rw [hs, hs']
  rfl

theorem add_of_beq_zero {u v : Float} (hu : (u == 0) = true) (hv : (v == 0) = false) :
    u + v = v := by
  obtain ⟨s, hs⟩ := beq_zero_iff.mp hu
  have hadd : add .binary64 (.zero s) v.toModel.unpack = v.toModel.unpack := by
    cases hunpack : v.toModel.unpack with
    | zero s' => rw [beq_zero_iff.mpr ⟨s', hunpack⟩] at hv; cases hv
    | _ => rfl
  change Float.ofModel (.pack (add .binary64 u.toModel.unpack v.toModel.unpack)) = v
  rw [hs, hadd, ofModel_pack_unpack]

theorem add_beq_zero {u v : Float} (hu : (u == 0) = true) (hv : (v == 0) = true) :
    (u + v == 0) = true := by
  rcases beq_zero_iff_eq.mp hu with rfl | rfl <;> rcases beq_zero_iff_eq.mp hv with rfl | rfl <;>
    decide

theorem zero_add_of_ne {v : Float} (h : (v == 0) = false) : 0 + v = v :=
  add_of_beq_zero (beq_zero_iff_eq.mpr (.inl rfl)) h

theorem zero_add_beq_zero (v : Float) : (0 + v == 0) = (v == 0) := by
  cases h : v == 0 with
  | false => rw [zero_add_of_ne h, h]
  | true => exact add_beq_zero (beq_zero_iff_eq.mpr (.inl rfl)) h

end LinearProgram.Packing
