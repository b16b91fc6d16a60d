import LinearProgram.Word

/-!
Integers read from text: an optional sign and decimal digits, between blanks, within a signed word.
The decimal form of every integer that fits a signed word is read as that integer.
-/

namespace LinearProgram.Text

/-- First and last code points of the runs of blanks, which have the White_Space property of
Unicode. -/
def blankRuns : List (Nat × Nat) :=
  [(0x09, 0x0D), (0x20, 0x20), (0x85, 0x85), (0xA0, 0xA0), (0x1680, 0x1680), (0x2000, 0x200A),
    (0x2028, 0x2029), (0x202F, 0x202F), (0x205F, 0x205F), (0x3000, 0x3000)]

def isBlank (c : Char) : Bool := blankRuns.any fun (a, b) => a ≤ c.toNat ∧ c.toNat ≤ b

/-- Without the blanks at either end. -/
def trim (cs : List Char) : List Char :=
  ((cs.dropWhile isBlank).reverse.dropWhile isBlank).reverse

def natOfDigits? : List Char → Option Nat
  | [] => none
  | cs => if cs.all Char.isDigit then some (cs.foldl (fun n c => 10 * n + (c.toNat - 48)) 0)
    else none

def intOfChars? : List Char → Option Int
  | '-' :: cs => (natOfDigits? cs).map fun n => -(n : Int)
  | '+' :: cs => (natOfDigits? cs).map fun n => n
  | cs => (natOfDigits? cs).map fun n => n

def integer? (s : String) : Option Int :=
  (intOfChars? (trim s.toList)).filter Signed.fits

/-! ### Integers written and read back -/

theorem natOfDigits?_toDigits (n : Nat) : natOfDigits? (Nat.toDigits 10 n) = some n := by
  have hdigits : (Nat.toDigits 10 n).all Char.isDigit = true := by
    rw [List.all_eq_true]
    intro c hc
    exact Nat.isDigit_of_mem_toDigits (by decide) (by decide) hc
  have hvalue : (Nat.toDigits 10 n).foldl (fun n c => 10 * n + (c.toNat - 48)) 0 = n :=
    Nat.ofDigitChars_ten_toDigits
  cases hchars : Nat.toDigits 10 n with
  | nil => exact absurd hchars Nat.toDigits_ne_nil
  | cons c cs =>
      rw [hchars] at hdigits hvalue
      rw [natOfDigits?, if_pos hdigits, hvalue]
      intro h
      cases h

/-- A character of a decimal numeral: a digit or the sign. -/
theorem mem_toList_repr {v : Int} {c : Char} (h : c ∈ v.repr.toList) : c = '-' ∨ c.isDigit := by
  rw [Int.repr_eq_if] at h
  split at h
  · rw [Nat.toList_repr] at h
    exact .inr (Nat.isDigit_of_mem_toDigits (by decide) (by decide) h)
  · rw [String.toList_append, Nat.toList_repr, List.mem_append] at h
    rcases h with h | h
    · exact .inl (List.mem_singleton.mp h)
    · exact .inr (Nat.isDigit_of_mem_toDigits (by decide) (by decide) h)

theorem isBlank_of_isDigit {c : Char} (h : c.isDigit) : isBlank c = false := by
  have hrange : 48 ≤ c.toNat ∧ c.toNat ≤ 57 := by
    simpa [Char.isDigit, Char.le_def, UInt32.le_iff_toNat_le] using h
  simp only [isBlank, blankRuns, List.any_cons, List.any_nil, Bool.or_false]
  simp only [Bool.or_eq_false_iff, decide_eq_false_iff_not]
  omega

theorem trim_eq_self {cs : List Char} (h : ∀ c ∈ cs, isBlank c = false) : trim cs = cs := by
  have hdrop : ∀ ds : List Char, (∀ c ∈ ds, isBlank c = false) → ds.dropWhile isBlank = ds := by
    intro ds hds
    cases ds with
    | nil => rfl
    | cons d ds =>
        rw [List.dropWhile_cons_of_neg]
        rw [hds d List.mem_cons_self]
        exact Bool.false_ne_true
  rw [trim, hdrop cs h, hdrop cs.reverse, List.reverse_reverse]
  intro c hc
  exact h c (List.mem_reverse.mp hc)

theorem intOfChars?_repr (v : Int) : intOfChars? v.repr.toList = some v := by
  rw [Int.repr_eq_if]
  split
  · rename_i hsign
    rw [Nat.toList_repr]
    have hread := natOfDigits?_toDigits v.toNat
    have hdigit : ∀ c ∈ Nat.toDigits 10 v.toNat, c.isDigit := by
      intro c hc
      exact Nat.isDigit_of_mem_toDigits (by decide) (by decide) hc
    -- a digit is no sign, so the numeral is read as it stands
    rw [intOfChars?, hread]
    · exact congrArg some (Int.toNat_of_nonneg hsign)
    · intro cs hcs
      have hminus := hdigit '-' (by simp [hcs])
      exact absurd hminus (by decide)
    · intro cs hcs
      have hplus := hdigit '+' (by simp [hcs])
      exact absurd hplus (by decide)
  · rename_i hsign
    have hchars : ("-" ++ (-v).toNat.repr).toList = '-' :: Nat.toDigits 10 (-v).toNat := by
      rw [String.toList_append, Nat.toList_repr]
      rfl
    have hvalue : -((-v).toNat : Int) = v := by omega
    rw [hchars, intOfChars?, natOfDigits?_toDigits]
    exact congrArg some hvalue

theorem integer?_toString {v : Int} (h : Signed.fits v = true) :
    integer? (toString v) = some v := by
  have hblank : ∀ c ∈ v.repr.toList, isBlank c = false := by
    intro c hc
    rcases mem_toList_repr hc with rfl | hdigit
    · decide
    · exact isBlank_of_isDigit hdigit
  rw [integer?, Int.toString_eq_repr, trim_eq_self hblank, intOfChars?_repr, Option.filter_some, h]
  rfl

end LinearProgram.Text
