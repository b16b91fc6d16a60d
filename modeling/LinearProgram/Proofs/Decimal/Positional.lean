import LinearProgram.Decimal.Shortest
import Mathlib.Algebra.Order.Field.Basic
import Mathlib.Data.List.TakeWhile
import Mathlib.Data.Rat.Cast.Defs

/-!
Decimals without exponent, read back. The text of a decimal has its digits, zeros and at most one
point, and its number can be read off the text.
-/

namespace LinearProgram.Decimal

def Digits.value (d : Digits) : Rat := d.digits * 10 ^ d.exponent

/-- The number that a numeral stands for; what follows the point are its places. -/
def read (cs : List Char) : Rat :=
  let places := (cs.dropWhile (· ≠ '.')).tail
  Nat.ofDigitChars 10 (cs.takeWhile (· ≠ '.') ++ places) 0 / 10 ^ places.length

variable {cs whole places : List Char} {c : Char}

theorem read_of_notMem (h : '.' ∉ cs) : read cs = Nat.ofDigitChars 10 cs 0 := by
  have hall : ∀ c ∈ cs, decide (c ≠ '.') = true := by
    intro c hc
    exact decide_eq_true fun heq => h (heq ▸ hc)
  have hnone : cs.dropWhile (· ≠ '.') = [] := List.dropWhile_eq_nil_iff.mpr hall
  rw [read, hnone, List.takeWhile_eq_self_iff.mpr hall]
  simp

theorem read_append (h : '.' ∉ whole) : read (whole ++ '.' :: places)
    = Nat.ofDigitChars 10 (whole ++ places) 0 / 10 ^ places.length := by
  have hall : ∀ c ∈ whole, decide (c ≠ '.') = true := by
    intro c hc
    exact decide_eq_true fun heq => h (heq ▸ hc)
  rw [read, List.takeWhile_append_of_pos hall, List.dropWhile_append_of_pos hall]
  simp

theorem toList_pushn (s : String) (c : Char) (n : Nat) :
    (s.pushn c n).toList = s.toList ++ List.replicate n c := by
  rw [String.pushn_eq_repeat_push]
  induction n with
  | zero => simp [Nat.repeat]
  | succ n ih => rw [Nat.repeat, String.toList_push, ih, List.append_assoc, List.replicate_succ']

theorem isDigit_zeros {n : Nat} (h : c ∈ List.replicate n '0') : c.isDigit := by
  rw [List.eq_of_mem_replicate h]
  rfl

theorem notMem_of_isDigit (h : ∀ c ∈ cs, c.isDigit) : '.' ∉ cs := fun hpoint =>
  absurd (h '.' hpoint) (by decide)

namespace Digits

variable {d : Digits}

theorem toList_positional_whole (h : 0 ≤ d.exponent) :
    d.positional.toList = Nat.toDigits 10 d.digits ++ List.replicate d.exponent.toNat '0' := by
  rw [positional, if_pos h, toList_pushn, Nat.toString_eq_repr, Nat.toList_repr]

theorem isDigit_positional_whole (h : 0 ≤ d.exponent) : ∀ c ∈ d.positional.toList, c.isDigit := by
  rw [toList_positional_whole h, List.forall_mem_append]
  exact ⟨fun c => Nat.isDigit_of_mem_toDigits (by decide) (by decide), fun c => isDigit_zeros⟩

/-- A decimal with places: its digits, led by zeros, and a point that leaves `-exponent` of them. -/
theorem toList_positional_places (h : d.exponent < 0) :
    ∃ zeros whole places, d.positional.toList = whole ++ '.' :: places
      ∧ whole ++ places = List.replicate zeros '0' ++ Nat.toDigits 10 d.digits
      ∧ (places.length : Int) = -d.exponent := by
  let padded := List.replicate ((-d.exponent).toNat + 1 - (toString d.digits).length) '0'
    ++ Nat.toDigits 10 d.digits
  let whole := padded.length - (-d.exponent).toNat
  have hdigits : (toString d.digits).toList = Nat.toDigits 10 d.digits := by
    rw [Nat.toString_eq_repr, Nat.toList_repr]
  have hlength : (-d.exponent).toNat < padded.length := by
    rw [List.length_append, List.length_replicate, ← hdigits, String.length_toList]
    omega
  refine ⟨_, padded.take whole, padded.drop whole, ?_, List.take_append_drop .., ?_⟩
  · rw [positional, if_neg h.not_ge]
    simp only [String.toList_append, toList_pushn, hdigits, String.toList_ofList, List.append_assoc]
    rfl
  · rw [List.length_drop]
    omega

theorem isDigit_padded {zeros : Nat}
    (h : whole ++ places = List.replicate zeros '0' ++ Nat.toDigits 10 d.digits) :
    (∀ c ∈ whole, c.isDigit) ∧ ∀ c ∈ places, c.isDigit := by
  rw [← List.forall_mem_append, h, List.forall_mem_append]
  exact ⟨fun c => isDigit_zeros, fun c => Nat.isDigit_of_mem_toDigits (by decide) (by decide)⟩

theorem mem_positional (h : c ∈ d.positional.toList) : c.isDigit ∨ c = '.' := by
  rcases le_or_gt 0 d.exponent with hsign | hsign
  · exact .inl (isDigit_positional_whole hsign c h)
  · obtain ⟨zeros, whole, places, htext, hpadded, -⟩ := toList_positional_places hsign
    obtain ⟨hwhole, hplaces⟩ := isDigit_padded hpadded
    rw [htext, List.mem_append, List.mem_cons] at h
    rcases h with h | rfl | h
    · exact .inl (hwhole c h)
    · exact .inr rfl
    · exact .inl (hplaces c h)

theorem positional_ne_nil (d : Digits) : d.positional.toList ≠ [] := by
  rcases le_or_gt 0 d.exponent with hsign | hsign
  · rw [toList_positional_whole hsign]
    exact List.append_ne_nil_of_left_ne_nil Nat.toDigits_ne_nil _
  · obtain ⟨zeros, whole, places, htext, -⟩ := toList_positional_places hsign
    rw [htext]
    exact List.append_ne_nil_of_right_ne_nil _ (List.cons_ne_nil _ _)

theorem read_positional (d : Digits) : read d.positional.toList = d.value := by
  rcases le_or_gt 0 d.exponent with hsign | hsign
  · rw [read_of_notMem (notMem_of_isDigit (isDigit_positional_whole hsign)),
      toList_positional_whole hsign, Nat.ofDigitChars_append, Nat.ofDigitChars_ten_toDigits,
      Nat.ofDigitChars_replicate_zero, Nat.mul_comm, value]
    obtain ⟨n, hn⟩ := Int.eq_ofNat_of_zero_le hsign
    rw [hn, Int.toNat_natCast, zpow_natCast]
    push_cast
    rfl
  · obtain ⟨zeros, whole, places, htext, hpadded, hplaces⟩ := toList_positional_places hsign
    have hwhole : '.' ∉ whole := notMem_of_isDigit (isDigit_padded hpadded).1
    have hexponent : d.exponent = -(places.length : Int) := by omega
    rw [htext, read_append hwhole, hpadded, Nat.ofDigitChars_append,
      Nat.ofDigitChars_replicate_zero, Nat.mul_zero, Nat.ofDigitChars_ten_toDigits, value,
      hexponent, zpow_neg, zpow_natCast, div_eq_mul_inv]

end Digits

end LinearProgram.Decimal
