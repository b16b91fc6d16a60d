import LinearProgram.Proofs.Decimal.Span
import LinearProgram.Proofs.LpText.Words
import LinearProgram.Proofs.Scalar.Packing

/-!
Floats by their text. A float is the only one with its text, which is one word and no lone sign.
-/

namespace LinearProgram

namespace Double

variable {b b' : UInt64} {d d' : Double} {c : Char}

theorem negative_ofBits (b : UInt64) :
    (ofBits b).negative = decide (2048 ≤ b.toNat / 2 ^ 52) := rfl

theorem mantissa_ofBits (b : UInt64) : (ofBits b).mantissa
    = if b.toNat / 2 ^ 52 % 2048 = 0 then b.toNat % 2 ^ 52 else b.toNat % 2 ^ 52 + 2 ^ 52 := rfl

theorem exponent_ofBits (b : UInt64) :
    (ofBits b).exponent = (max (b.toNat / 2 ^ 52 % 2048) 1 : Nat) - 1075 := rfl

theorem special_ofBits (b : UInt64) :
    (ofBits b).special = decide (b.toNat / 2 ^ 52 % 2048 = 2047) := rfl

theorem ofBits_injective (h : ofBits b = ofBits b') : b = b' := by
  have hb := b.toNat_lt
  have hb' := b'.toNat_lt
  have hsign := congrArg negative h
  have hmantissa := congrArg mantissa h
  have hexponent := congrArg exponent h
  rw [negative_ofBits, negative_ofBits, decide_eq_decide] at hsign
  rw [mantissa_ofBits, mantissa_ofBits] at hmantissa
  rw [exponent_ofBits, exponent_ofBits] at hexponent
  apply UInt64.toNat_inj.mp
  split at hmantissa <;> split at hmantissa <;> omega

/-- A float that is no number. -/
def IsNaN (d : Double) : Prop := d.special = true ∧ d.mantissa ≠ leading

theorem isNaN_ofBits_iff : (ofBits b).IsNaN ↔ Packing.IsNaN b.toBitVec := by
  rw [Packing.isNaN_iff, IsNaN, special_ofBits, mantissa_ofBits, decide_eq_true_eq]
  change _ ∧ _ ≠ 2 ^ 52 ↔ b.toNat / 2 ^ 52 % 2 ^ 11 = 2047 ∧ b.toNat % 2 ^ 52 ≠ 0
  split <;> omega

/-- What the bits of a finite float allow: zero has the least exponent, and every other number is
a canonical fraction. -/
structure Finite (d : Double) : Prop where
  special : d.special = false
  exponent_of_zero : d.mantissa = 0 → d.exponent = -1074
  canonical : 0 < d.mantissa → Decimal.Span.Canonical d.mantissa d.exponent d.narrow

theorem finite_ofBits (h : (ofBits b).special = false) : (ofBits b).Finite := by
  have hmantissa := mantissa_ofBits b
  have hexponent := exponent_ofBits b
  refine ⟨h, fun hzero => ?_, fun hpos => ⟨hpos, ?_, ?_, ?_, ?_⟩⟩
  · split at hmantissa <;> omega
  · split at hmantissa <;> omega
  · omega
  · split at hmantissa <;> omega
  · intro hleast hpower
    exact decide_eq_true ⟨hpower, hleast⟩

theorem exponent_of_special (h : (ofBits b).special = true) : (ofBits b).exponent = 972 := by
  rw [special_ofBits, decide_eq_true_eq] at h
  rw [exponent_ofBits]
  omega

theorem mem_magnitude (h : c ∈ d.magnitude.toList) : c.isDigit ∨ c ∈ ['.', 'i', 'n', 'f'] := by
  unfold magnitude at h
  split at h
  · exact .inr (List.mem_cons_of_mem _ h)
  split at h
  · rw [List.mem_singleton.mp h]
    exact .inl rfl
  · rcases Decimal.Digits.mem_positional h with h | rfl
    · exact .inl h
    · exact .inr List.mem_cons_self

theorem magnitude_ne_nil (d : Double) : d.magnitude.toList ≠ [] := by
  unfold magnitude
  split
  · exact List.cons_ne_nil _ _
  split
  · exact List.cons_ne_nil _ _
  · exact Decimal.Digits.positional_ne_nil _

theorem magnitude_special (h : d.special = true) : d.magnitude = "inf" := by
  rw [magnitude, if_pos h]

theorem magnitude_ne_inf (h : d.special = false) : d.magnitude ≠ "inf" := by
  unfold magnitude
  rw [h]
  split
  · rename_i h
    cases h
  split
  · decide
  · intro hinf
    have hi : 'i' ∈ (Decimal.shortest d.mantissa d.exponent d.narrow).positional.toList := by
      rw [hinf]
      decide
    exact absurd (Decimal.Digits.mem_positional hi) (by decide)

/-- What the magnitude reads as: zero, or a number that rounds to the float. -/
theorem read_magnitude (h : d.special = false) :
    (d.mantissa = 0 → Decimal.read d.magnitude.toList = 0)
      ∧ (0 < d.mantissa → (Decimal.Span.ofBinary d.mantissa d.exponent d.narrow).Covers
        (Decimal.read d.magnitude.toList)) := by
  unfold magnitude
  rw [h, if_neg Bool.false_ne_true]
  constructor
  · intro hzero
    rw [if_pos hzero, Decimal.read_of_notMem (by decide)]
    rfl
  · intro hpos
    rw [if_neg hpos.ne', Decimal.Digits.read_positional]
    exact Decimal.Span.covers_shortest hpos

theorem eq_of_magnitude_eq (h : d.Finite) (h' : d'.Finite) (hsame : d.magnitude = d'.magnitude) :
    d.mantissa = d'.mantissa ∧ d.exponent = d'.exponent := by
  obtain ⟨hzero, hcovers⟩ := read_magnitude h.special
  obtain ⟨hzero', hcovers'⟩ := read_magnitude h'.special
  rw [hsame] at hzero hcovers
  rcases Nat.eq_zero_or_pos d.mantissa with hm | hm
  · rcases Nat.eq_zero_or_pos d'.mantissa with hm' | hm'
    · rw [hm, hm', h.exponent_of_zero hm, h'.exponent_of_zero hm']
      exact ⟨rfl, rfl⟩
    · exact absurd (hzero hm) (Decimal.Span.pos_of_covers hm' (hcovers' hm')).ne'
  · rcases Nat.eq_zero_or_pos d'.mantissa with hm' | hm'
    · exact absurd (hzero' hm') (Decimal.Span.pos_of_covers hm (hcovers hm)).ne'
    · exact (h.canonical hm).eq_of_covers (h'.canonical hm') (hcovers hm) (hcovers' hm')

theorem text_of_isNaN (h : d.IsNaN) : d.text = "NaN" := if_pos h

theorem text_of_not_isNaN (h : ¬d.IsNaN) :
    d.text.toList = (if d.negative then ['-'] else []) ++ d.magnitude.toList := by
  have htext : d.text = if d.negative then "-" ++ d.magnitude else d.magnitude := if_neg h
  rw [htext]
  split
  · exact String.toList_append
  · rfl

theorem mem_text (h : c ∈ d.text.toList) : c.isDigit ∨ c ∈ ['N', 'a', '-', '.', 'i', 'n', 'f'] := by
  by_cases hnan : d.IsNaN
  · have hletter : c ∈ ['N', 'a', 'N'] := by rwa [text_of_isNaN hnan] at h
    simp only [List.mem_cons, List.not_mem_nil, or_false] at hletter
    rcases hletter with rfl | rfl | rfl <;> exact .inr (by decide)
  · rw [text_of_not_isNaN hnan, List.mem_append] at h
    rcases h with h | h
    · split at h
      · rw [List.mem_singleton.mp h]
        exact .inr (by decide)
      · cases h
    · rcases mem_magnitude h with h | h
      · exact .inl h
      · exact .inr (List.mem_append_right ['N', 'a', '-'] h)

theorem text_ne_nan (h : ¬d.IsNaN) : d.text ≠ "NaN" := by
  intro heq
  have hN : 'N' ∈ d.text.toList := by rw [heq]; decide
  rw [text_of_not_isNaN h, List.mem_append] at hN
  rcases hN with hN | hN
  · split at hN <;> simp at hN
  · exact absurd (mem_magnitude hN) (by decide)

theorem magnitude_ne_minus (d : Double) (cs : List Char) : d.magnitude.toList ≠ '-' :: cs := by
  intro h
  have hmem : '-' ∈ d.magnitude.toList := by rw [h]; exact List.mem_cons_self
  exact absurd (mem_magnitude hmem) (by decide)

theorem text_ne_minus (d : Double) : d.text ≠ "-" := by
  intro h
  by_cases hnan : d.IsNaN
  · rw [text_of_isNaN hnan] at h
    revert h
    decide
  · have hchars : d.text.toList = ['-'] := congrArg String.toList h
    rw [text_of_not_isNaN hnan] at hchars
    split at hchars
    · exact magnitude_ne_nil d (List.cons.inj hchars).2
    · exact magnitude_ne_minus d [] hchars

theorem text_ne_plus (d : Double) : d.text ≠ "+" := by
  intro h
  have hplus : '+' ∈ d.text.toList := by rw [h]; decide
  exact absurd (mem_text hplus) (by decide)

/-- The sign stands before the magnitude, which has none. -/
theorem negative_and_magnitude_of_text_eq (h : ¬d.IsNaN) (h' : ¬d'.IsNaN)
    (heq : d.text = d'.text) : d.negative = d'.negative ∧ d.magnitude = d'.magnitude := by
  have hchars : d.text.toList = d'.text.toList := congrArg String.toList heq
  rw [text_of_not_isNaN h, text_of_not_isNaN h'] at hchars
  cases hsign : d.negative <;> cases hsign' : d'.negative <;>
    simp only [hsign, hsign', if_true, Bool.false_eq_true, if_false, List.nil_append,
      List.singleton_append, List.cons.injEq, true_and] at hchars
  · exact ⟨rfl, String.toList_inj.mp hchars⟩
  · exact absurd hchars (magnitude_ne_minus d _)
  · exact absurd hchars.symm (magnitude_ne_minus d' _)
  · exact ⟨rfl, String.toList_inj.mp hchars⟩

theorem eq_of_text_eq (h : ¬(ofBits b).IsNaN) (h' : ¬(ofBits b').IsNaN)
    (heq : (ofBits b).text = (ofBits b').text) : b = b' := by
  obtain ⟨hsign, hmagnitude⟩ := negative_and_magnitude_of_text_eq h h' heq
  apply ofBits_injective
  suffices hsame : (ofBits b).mantissa = (ofBits b').mantissa
      ∧ (ofBits b).exponent = (ofBits b').exponent ∧ (ofBits b).special = (ofBits b').special by
    obtain ⟨hmantissa, hexponent, hspecial⟩ := hsame
    cases hd : ofBits b
    cases hd' : ofBits b'
    rw [hd, hd'] at hsign hmantissa hexponent hspecial
    rw [Double.mk.injEq]
    exact ⟨hsign, hmantissa, hexponent, hspecial⟩
  cases hs : (ofBits b).special <;> cases hs' : (ofBits b').special
  · obtain ⟨hmantissa, hexponent⟩ := eq_of_magnitude_eq (finite_ofBits hs) (finite_ofBits hs')
      hmagnitude
    exact ⟨hmantissa, hexponent, rfl⟩
  · exact absurd (hmagnitude.trans (magnitude_special hs')) (magnitude_ne_inf hs)
  · exact absurd (hmagnitude.symm.trans (magnitude_special hs)) (magnitude_ne_inf hs')
  · have hinf : (ofBits b).mantissa = leading := not_not.mp fun hm => h ⟨hs, hm⟩
    have hinf' : (ofBits b').mantissa = leading := not_not.mp fun hm => h' ⟨hs', hm⟩
    exact ⟨hinf.trans hinf'.symm, (exponent_of_special hs).trans (exponent_of_special hs').symm,
      rfl⟩

end Double

namespace Scalar

open Packing in
theorem alike_of_abs_eq {u v : Float} (hsign : u < 0 ↔ v < 0) (h : abs u = abs v) :
    Alike u v := by
  unfold abs at h
  by_cases hu : u < 0
  · rw [if_pos hu, if_pos (hsign.mp hu)] at h
    rw [eq_of_neg_eq hu (hsign.mp hu) h]
    exact .refl v
  rw [if_neg hu, if_neg (mt hsign.mpr hu)] at h
  -- a zero may have lost its sign, all other numbers are as they were
  have hzero : (u == 0) = (v == 0) := by rw [← zero_add_beq_zero u, h, zero_add_beq_zero v]
  cases hv : v == 0 with
  | true => exact .inl (beq_of_beq_zero (hzero.trans hv) hv)
  | false =>
      rw [zero_add_of_ne (hzero.trans hv), zero_add_of_ne hv] at h
      rw [h]
      exact .refl v

open Double in
instance : Legible Float where
  isWord v c hc := by
    rcases mem_text hc with h | h
    · exact LpText.isSeparator_of_isDigit h
    · simp only [List.mem_cons, List.not_mem_nil, or_false] at h
      rcases h with rfl | rfl | rfl | rfl | rfl | rfl | rfl <;> rfl
  ne_plus v := text_ne_plus _
  ne_minus v := text_ne_minus _
  text_inj {u v} h := by
    by_cases hu : (ofBits u.toBits).IsNaN <;> by_cases hv : (ofBits v.toBits).IsNaN
    · exact Packing.eq_of_isNaN (isNaN_ofBits_iff.mp hu) (isNaN_ofBits_iff.mp hv)
    · exact absurd (h.symm.trans (text_of_isNaN hu)) (text_ne_nan hv)
    · exact absurd (h.trans (text_of_isNaN hv)) (text_ne_nan hu)
    · exact Packing.eq_of_bits_eq (congrArg UInt64.toBitVec (eq_of_text_eq hu hv h))
  neg_inj := Packing.eq_of_neg_eq
  alike_of_abs := alike_of_abs_eq
  alike_of_zero hu hv := .inl (Packing.beq_of_beq_zero hu hv)

end Scalar

end LinearProgram
