import LinearProgram.LpText
import Mathlib.Data.List.TakeWhile

/-!
LP text as a sequence of words. Each word is led by the character that ends the one before it, so
two texts that are equal have the same words behind the same characters.
-/

namespace LinearProgram

namespace LpText

/-- The characters at which a word ends. -/
def isSeparator (c : Char) : Bool := c = ' ' ∨ c = '\n' ∨ c = ':'

def IsWord (s : String) : Prop := ∀ c ∈ s.toList, isSeparator c = false

instance (s : String) : Decidable (IsWord s) := List.decidableBAll _ s.toList

theorem isSeparator_of_isDigit {c : Char} (h : c.isDigit) : isSeparator c = false := by
  rw [Bool.eq_false_iff]
  intro hseparator
  simp only [isSeparator, decide_eq_true_eq] at hseparator
  rcases hseparator with rfl | rfl | rfl <;> revert h <;> decide

/-- A word with the character before it. -/
structure Piece where
  mark : Char
  word : String

namespace Piece

/-- A word after a space. -/
def next (w : String) : Piece := ⟨' ', w⟩

/-- A word at the start of a line. -/
def first (w : String) : Piece := ⟨'\n', w⟩

/-- The end of a row's name. -/
def colon : Piece := ⟨':', ""⟩

def chars (p : Piece) : List Char := p.mark :: p.word.toList

/-- No word runs into the one behind it. -/
structure Parted (p : Piece) : Prop where
  mark : isSeparator p.mark = true
  word : IsWord p.word

theorem parted_next {w : String} (h : IsWord w) : (next w).Parted := ⟨rfl, h⟩

theorem parted_first {w : String} (h : IsWord w) : (first w).Parted := ⟨rfl, h⟩

theorem parted_colon : colon.Parted := ⟨rfl, by decide⟩

end Piece

/-- The text of pieces one after the other. -/
def joined (ps : List Piece) : List Char := ps.flatMap Piece.chars

theorem joined_append (ps qs : List Piece) : joined (ps ++ qs) = joined ps ++ joined qs :=
  List.flatMap_append

theorem takeWhile_joined {ps : List Piece} (h : ∀ p ∈ ps, p.Parted) :
    (joined ps).takeWhile (fun c => !isSeparator c) = [] := by
  cases ps with
  | nil => rfl
  | cons p ps =>
      have hmark := (h p List.mem_cons_self).mark
      exact List.takeWhile_cons_of_neg (by simp [hmark])

theorem takeWhile_word {w : String} {ps : List Piece} (hw : IsWord w) (h : ∀ p ∈ ps, p.Parted) :
    (w.toList ++ joined ps).takeWhile (fun c => !isSeparator c) = w.toList := by
  rw [List.takeWhile_append_of_pos, takeWhile_joined h, List.append_nil]
  intro c hc
  simp [hw c hc]

theorem eq_of_joined_eq {ps qs : List Piece} (hps : ∀ p ∈ ps, p.Parted) (hqs : ∀ q ∈ qs, q.Parted)
    (h : joined ps = joined qs) : ps = qs := by
  induction ps generalizing qs with
  | nil =>
      cases qs with
      | nil => rfl
      | cons q qs => cases h
  | cons p ps ih =>
      cases qs with
      | nil => cases h
      | cons q qs =>
          rw [List.forall_mem_cons] at hps hqs
          obtain ⟨hmark, hrest⟩ := List.cons.inj h
          have hword : p.word.toList = q.word.toList := by
            rw [← takeWhile_word hps.1.word hps.2, ← takeWhile_word hqs.1.word hqs.2]
            exact congrArg _ hrest
          have htail : joined ps = joined qs := by
            change p.word.toList ++ joined ps = q.word.toList ++ joined qs at hrest
            rw [hword] at hrest
            exact List.append_cancel_left hrest
          have hhead : p = q := by
            obtain ⟨mark, word⟩ := p
            obtain ⟨mark', word'⟩ := q
            rw [Piece.mk.injEq]
            exact ⟨hmark, String.toList_inj.mp hword⟩
          rw [hhead, ih hps.2 hqs.2 htail]

/-- What stands in front of the first line break does not matter. -/
theorem eq_of_line_append_eq {l l' cs ds : List Char} (hl : '\n' ∉ l) (hl' : '\n' ∉ l')
    (h : l ++ '\n' :: cs = l' ++ '\n' :: ds) : cs = ds := by
  rcases List.append_eq_append_iff.mp h with ⟨t, rfl, ht⟩ | ⟨t, rfl, ht⟩
  · cases t with
    | nil => exact (List.cons.inj ht).2
    | cons c t =>
        obtain rfl := (List.cons.inj ht).1
        exact absurd (List.mem_append_right l List.mem_cons_self) hl'
  · cases t with
    | nil => exact (List.cons.inj ht).2.symm
    | cons c t =>
        obtain rfl := (List.cons.inj ht).1
        exact absurd (List.mem_append_right l' List.mem_cons_self) hl

/-! ### Names -/

/-- Made of characters that names are made of. -/
def IsName (s : String) : Prop := ∀ c ∈ s.toList, isNameChar c = true

instance (s : String) : Decidable (IsName s) := List.decidableBAll _ s.toList

theorem isNameChar_nameChar (c : Char) : isNameChar (nameChar c) = true := by
  unfold nameChar
  split
  · decide
  split
  · decide
  split
  · assumption
  · decide

theorem isName_name (s : String) : IsName (name s) := by
  have hmapped : ∀ c ∈ s.toList.map nameChar, isNameChar c = true := by
    simp [isNameChar_nameChar]
  unfold IsName name
  dsimp only
  rw [String.toList_ofList]
  split
  · exact List.forall_mem_cons.mpr ⟨by decide, hmapped⟩
  · exact hmapped

theorem IsName.isWord {s : String} (h : IsName s) : IsWord s := by
  intro c hc
  rw [Bool.eq_false_iff]
  intro hseparator
  have hname := h c hc
  simp only [isSeparator, decide_eq_true_eq] at hseparator
  rcases hseparator with rfl | rfl | rfl <;> revert hname <;> decide

theorem IsName.append {s t : String} (hs : IsName s) (ht : IsName t) : IsName (s ++ t) := by
  unfold IsName
  rw [String.toList_append, List.forall_mem_append]
  exact ⟨hs, ht⟩

end LpText

/-! ### Numbers -/

namespace Scalar

/-- Two numbers that are equal, or two that are no numbers. -/
def Alike {κ : Type} [Scalar κ] (u v : κ) : Prop :=
  (u == v) = true ∨ isNumber u = false ∧ isNumber v = false

theorem Alike.refl {κ : Type} [Scalar κ] (u : κ) : Alike u u := by
  cases h : isNumber u with
  | true => exact .inl h
  | false => exact .inr ⟨h, h⟩

/-- Numbers that can be told from their text, a word and no lone sign. -/
class Legible (κ : Type) [Scalar κ] : Prop where
  isWord (v : κ) : LpText.IsWord (text v)
  ne_plus (v : κ) : text v ≠ "+"
  ne_minus (v : κ) : text v ≠ "-"
  text_inj {u v : κ} : text u = text v → u = v
  neg_inj {u v : κ} : u < 0 → v < 0 → -u = -v → u = v
  alike_of_abs {u v : κ} : (u < 0 ↔ v < 0) → abs u = abs v → Alike u v
  alike_of_zero {u v : κ} : (u == 0) = true → (v == 0) = true → Alike u v

end Scalar

end LinearProgram
