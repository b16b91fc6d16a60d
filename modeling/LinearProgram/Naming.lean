/-!
Names of the elements of a family or of a group of constraints: a name, and behind it the labels of
the element in brackets with commas between them.
-/

namespace LinearProgram.Naming

/-- `[l0,l1,…]`, and nothing for no labels. -/
def brackets : List String → String
  | [] => ""
  | labels => "[" ++ ",".intercalate labels ++ "]"

def indexed (base : String) (labels : List String) : String := base ++ brackets labels

/-- A name with a text in brackets behind it, which an empty text goes without. -/
def titled (base text : String) : String := if text = "" then base else indexed base [text]

variable {base base' text text' : String} {labels : List String}

theorem indexed_eq (base : String) (labels : List String) :
    indexed base labels
      = if labels = [] then base else base ++ ("[" ++ ",".intercalate labels ++ "]") := by
  cases labels with
  | nil => exact String.append_empty
  | cons l ls => rfl

theorem intercalate_eq_empty_iff : ",".intercalate labels = "" ↔ labels = [] ∨ labels = [""] := by
  cases labels with
  | nil => simp
  | cons l ls =>
      cases ls with
      | nil => simp
      | cons l' ls => simp [String.intercalate_cons_cons]

/-- To put labels in brackets as one text comes to the same, but for an empty label alone. -/
theorem titled_intercalate (base : String) (labels : List String) :
    titled base (",".intercalate labels)
      = if labels = [""] then base else indexed base labels := by
  unfold titled
  by_cases hblank : labels = [""]
  · rw [if_pos hblank, if_pos (intercalate_eq_empty_iff.mpr (.inr hblank))]
  rw [if_neg hblank]
  cases labels with
  | nil => exact (if_pos rfl).trans String.append_empty.symm
  | cons l ls =>
      have htext : ",".intercalate (l :: ls) ≠ "" := by
        rw [Ne, intercalate_eq_empty_iff]
        exact not_or.mpr ⟨List.cons_ne_nil l ls, hblank⟩
      rw [if_neg htext]
      exact congrArg (fun text => base ++ ("[" ++ text ++ "]")) String.intercalate_singleton

theorem indexed_blank_ne (base : String) : indexed base [""] ≠ base := by
  intro h
  have hlength := congrArg String.length h
  simp [indexed, brackets] at hlength

/-! ### Names read back -/

/-- What stands behind the name. -/
def tail (text : String) : List Char :=
  if text = "" then [] else '[' :: (text.toList ++ [']'])

theorem toList_titled (base text : String) :
    (titled base text).toList = base.toList ++ tail text := by
  unfold titled tail
  split
  · rw [List.append_nil]
  · simp [indexed, brackets]

theorem tail_injective (h : tail text = tail text') : text = text' := by
  unfold tail at h
  split at h
  · rename_i hempty
    split at h
    · rename_i hempty'
      rw [hempty, hempty']
    · cases h
  · split at h
    · cases h
    · obtain ⟨-, hrest⟩ := List.cons.inj h
      exact String.toList_inj.mp (List.append_cancel_right hrest)

/-- A tail starts with the bracket that it starts with. -/
theorem takeWhile_tail (text : String) : (tail text).takeWhile (· ≠ '[') = [] := by
  unfold tail
  split <;> rfl

/-- A name without brackets can be read off, and so can the text behind it. -/
theorem titled_inj (hbase : '[' ∉ base.toList) (hbase' : '[' ∉ base'.toList)
    (h : titled base text = titled base' text') : base = base' ∧ text = text' := by
  have hplain {name : String} (hname : '[' ∉ name.toList) (behind : String) :
      (titled name behind).toList.takeWhile (· ≠ '[') = name.toList := by
    have hall : ∀ c ∈ name.toList, decide (c ≠ '[') = true := by
      intro c hc
      rw [decide_eq_true_eq]
      rintro rfl
      exact hname hc
    rw [toList_titled, List.takeWhile_append_of_pos hall, takeWhile_tail, List.append_nil]
  have hsame : base = base' := by
    rw [← String.toList_inj, ← hplain hbase text, ← hplain hbase' text', h]
  subst hsame
  have htails := congrArg String.toList h
  rw [toList_titled, toList_titled] at htails
  exact ⟨rfl, tail_injective (List.append_cancel_left htails)⟩

end LinearProgram.Naming
