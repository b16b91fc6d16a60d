import LinearProgram.Proofs.LpText.Names
import LinearProgram.Text.Numeral

/-!
Names as LP text spells them. Whatever text a name is made from, it comes out in letters, digits and
the listed punctuation, not empty and not starting like a number. Main statement: the texts of this
form are exactly those that come out as they are.
-/

namespace LinearProgram.LpText

variable {c : Char} {s : String}

/-- Not empty, in letters, digits and the listed punctuation, and starting with neither a digit nor
a period. -/
structure Proper (s : String) : Prop where
  nonempty : s ≠ ""
  chars : ∀ c ∈ s.toList, c.isAlphanum = true ∨ c ∈ punctuation
  start : ∀ c ∈ s.toList.head?, c.isDigit = false ∧ c ≠ '.'

/-! ### Characters -/

theorem isNameChar_iff : isNameChar c = true ↔ c.isAlphanum = true ∨ c ∈ punctuation := by
  simp [isNameChar]

theorem nameChar_eq_self_iff : nameChar c = c ↔ isNameChar c = true := by
  constructor
  · intro h
    rw [← h]
    exact isNameChar_nameChar c
  · intro h
    have hopening : c ≠ '[' := by
      rintro rfl
      exact absurd h (by decide)
    have hclosing : c ≠ ']' := by
      rintro rfl
      exact absurd h (by decide)
    rw [nameChar, if_neg hopening, if_neg hclosing, if_pos h]

/-- The visible characters of ASCII. -/
def isVisible (c : Char) : Bool := 33 ≤ c.toNat ∧ c.toNat < 127

theorem isVisible_of_isAlphanum (h : c.isAlphanum = true) : isVisible c = true := by
  unfold Char.isAlphanum Char.isAlpha Char.isUpper Char.isLower Char.isDigit at h
  simp [UInt32.le_iff_toNat_le] at h
  simp only [isVisible, decide_eq_true_eq]
  omega

theorem isVisible_of_isNameChar (h : isNameChar c = true) : isVisible c = true := by
  have hpunctuation : punctuation.all isVisible = true := by decide
  rcases isNameChar_iff.mp h with hletter | hmark
  · exact isVisible_of_isAlphanum hletter
  · exact List.all_eq_true.mp hpunctuation c hmark

theorem isBlank_of_isVisible (h : isVisible c = true) : Text.isBlank c = false := by
  simp only [isVisible, decide_eq_true_eq] at h
  simp [Text.isBlank, Text.blankRuns]
  omega

/-- What LP text is parted and related by does not occur in names. -/
theorem notMem_marks_of_isNameChar (h : isNameChar c = true) : c ∉ "[]:+-<>=".toList := by
  have hmarks : "[]:+-<>=".toList.all (fun c => !isNameChar c) = true := by decide
  intro hmark
  have hforeign := List.all_eq_true.mp hmarks c hmark
  rw [h] at hforeign
  cases hforeign

/-! ### Names -/

theorem startsLikeNumber_eq_false_iff :
    startsLikeNumber s.toList = false
      ↔ s ≠ "" ∧ ∀ c ∈ s.toList.head?, c.isDigit = false ∧ c ≠ '.' := by
  rw [Ne, ← String.toList_eq_nil_iff]
  cases s.toList with
  | nil => simp [startsLikeNumber]
  | cons c cs => simp [startsLikeNumber]

theorem proper_iff : Proper s ↔ IsName s ∧ startsLikeNumber s.toList = false := by
  rw [startsLikeNumber_eq_false_iff]
  simp only [IsName, isNameChar_iff]
  exact ⟨fun h => ⟨h.chars, h.nonempty, h.start⟩, fun h => ⟨h.2.1, h.1, h.2.2⟩⟩

theorem startsLikeNumber_spelled (s : String) : startsLikeNumber (spelled s) = false := by
  unfold spelled
  split
  · rfl
  · rename_i h
    exact Bool.eq_false_of_not_eq_true h

theorem proper_name (s : String) : Proper (name s) := by
  rw [proper_iff, toList_name, startsLikeNumber_map]
  exact ⟨isName_name s, startsLikeNumber_spelled s⟩

theorem Proper.name_eq_self (h : Proper s) : name s = s := by
  obtain ⟨hchars, hstart⟩ := proper_iff.mp h
  have hspelled : spelled s = s.toList := if_neg (by simp [hstart])
  rw [← String.toList_inj, toList_name, hspelled]
  have hself : ∀ c ∈ s.toList, nameChar c = id c := fun c hc =>
    nameChar_eq_self_iff.mpr (hchars c hc)
  rw [List.map_congr_left hself, List.map_id]

theorem name_eq_self_iff : name s = s ↔ Proper s := by
  constructor
  · intro h
    rw [← h]
    exact proper_name s
  · exact Proper.name_eq_self

/-- Every text becomes a proper name, in which nothing stands that parts or relates the words of LP
text; naming it again changes nothing, and exactly the proper names are left as they are. -/
theorem name_projects (s : String) :
    Proper (name s)
      ∧ (∀ c ∈ (name s).toList,
        c.toNat < 128 ∧ Text.isBlank c = false ∧ c ∉ "[]:+-<>=".toList)
      ∧ name (name s) = name s
      ∧ (name s = s ↔ Proper s) := by
  refine ⟨proper_name s, fun c hc => ?_, (proper_name s).name_eq_self, name_eq_self_iff⟩
  have hname : isNameChar c = true := isName_name s c hc
  have hvisible := isVisible_of_isNameChar hname
  have hascii : c.toNat < 128 := by
    simp only [isVisible, decide_eq_true_eq] at hvisible
    omega
  exact ⟨hascii, isBlank_of_isVisible hvisible, notMem_marks_of_isNameChar hname⟩

example : name "2nd [a b]" = "_2nd_(a_b)" := by decide

end LinearProgram.LpText
