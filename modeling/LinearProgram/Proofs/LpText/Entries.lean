import LinearProgram.Proofs.LpText.Parted

/-!
Entries and the objective, read from LP text. The pieces of entries give the entries and what stands
behind them, if that cannot be taken for another entry; the sign of a constant alone is no number.
-/

namespace LinearProgram

namespace LpText

open Piece Scalar.Legible

theorem eq_of_next_eq {w w' : String} (h : next w = next w') : w = w' := (Piece.mk.inj h).2

theorem eq_of_first_eq {w w' : String} (h : first w = first w') : w = w' := (Piece.mk.inj h).2

theorem next_ne_first (w w' : String) : next w ≠ first w' := by simp [next, first]

variable {κ : Type} [Scalar κ] [Scalar.Legible κ] {k : Nat} {c c' : κ} {n n' : String}
  {es es' : List (String × κ)} {r r' : List Piece}

/-! ### Entries -/

omit [Scalar.Legible κ] in
theorem length_signed (k : Nat) (c : κ) : (signed k c).length = if k = 0 then 1 else 2 := by
  unfold signed
  split
  · rfl
  · split <;> rfl

theorem signed_inj (h : signed k c = signed k c') : c = c' := by
  have hsign : "-" ≠ "+" := by decide
  unfold signed at h
  by_cases hk : k = 0
  · rw [if_pos hk, if_pos hk] at h
    exact text_inj (List.singleton_inj.mp h)
  rw [if_neg hk, if_neg hk] at h
  by_cases hc : c < 0 <;> by_cases hc' : c' < 0 <;>
    simp only [hc, hc', if_true, if_false, List.cons.injEq, and_true, true_and] at h
  · exact neg_inj hc hc' (text_inj h)
  · exact absurd h.1 hsign
  · exact absurd h.1.symm hsign
  · exact text_inj h

theorem entry_inj (h : entryPieces k c n ++ r = entryPieces k c' n' ++ r') :
    c = c' ∧ n = n' ∧ r = r' := by
  have hlength : (signed k c).length = (signed k c').length := by
    rw [length_signed, length_signed]
  rw [entryPieces, entryPieces, List.append_assoc, List.append_assoc] at h
  obtain ⟨hwords, hrest⟩ := List.append_inj h (by simp [hlength])
  obtain ⟨hsigned, hname⟩ :=
    List.append_inj ((List.map_inj_right fun _ _ => eq_of_next_eq).mp hwords) hlength
  exact ⟨signed_inj hsigned, List.singleton_inj.mp hname, List.append_cancel_left hrest⟩

/-- No further entry begins: a sign is not followed by two words of its line. -/
def Stops (r : List Piece) : Prop :=
  ∀ sign ∈ ["+", "-"], ∀ t n rest, r ≠ next sign :: next t :: next n :: rest

omit [Scalar.Legible κ] in
theorem not_stops_entry (hk : k ≠ 0) (c : κ) (n : String) (r : List Piece) :
    ¬Stops (entryPieces k c n ++ r) := by
  intro h
  unfold entryPieces signed at h
  rw [if_neg hk] at h
  split at h
  · exact h "-" (by decide) _ n _ rfl
  · exact h "+" (by decide) _ n _ rfl

omit [Scalar.Legible κ] in
theorem entriesPieces_cons_append (e : String × κ) (es : List (String × κ)) (r : List Piece) :
    entriesPieces k (e :: es) ++ r
      = entryPieces k e.2 e.1 ++ (entriesPieces (k + 1) es ++ r) := List.append_assoc _ _ _

theorem entries_inj (hk : k ≠ 0) (h : entriesPieces k es ++ r = entriesPieces k es' ++ r')
    (hr : Stops r) (hr' : Stops r') : es = es' ∧ r = r' := by
  induction es generalizing k es' with
  | nil =>
      cases es' with
      | nil => exact ⟨rfl, h⟩
      | cons e' es' =>
          rw [entriesPieces_cons_append] at h
          change r = _ at h
          exact absurd (h ▸ hr) (not_stops_entry hk e'.2 e'.1 _)
  | cons e es ih =>
      cases es' with
      | nil =>
          rw [entriesPieces_cons_append] at h
          change _ = r' at h
          exact absurd (h ▸ hr') (not_stops_entry hk e.2 e.1 _)
      | cons e' es' =>
          rw [entriesPieces_cons_append, entriesPieces_cons_append] at h
          obtain ⟨hc, hn, hrest⟩ := entry_inj h
          obtain ⟨hes, hr⟩ := ih (Nat.succ_ne_zero k) hrest
          rw [hes, Prod.ext hn hc]
          exact ⟨rfl, hr⟩

/-- Entries from the first one on, if there are any on both sides. -/
theorem entries_cons_inj {e e' : String × κ}
    (h : entriesPieces 0 (e :: es) ++ r = entriesPieces 0 (e' :: es') ++ r') (hr : Stops r)
    (hr' : Stops r') : e :: es = e' :: es' ∧ r = r' := by
  rw [entriesPieces_cons_append, entriesPieces_cons_append] at h
  obtain ⟨hc, hn, hrest⟩ := entry_inj h
  obtain ⟨hes, hr⟩ := entries_inj Nat.one_ne_zero hrest hr hr'
  rw [hes, Prod.ext hn hc]
  exact ⟨rfl, hr⟩

omit [Scalar.Legible κ] in
theorem entriesPieces_zero_cons (e : String × κ) (es : List (String × κ)) (r : List Piece) :
    ∃ rest, entriesPieces 0 (e :: es) ++ r = next (Scalar.text e.2) :: next e.1 :: rest := by
  rw [entriesPieces_cons_append, entryPieces, signed, if_pos rfl]
  exact ⟨_, rfl⟩

/-! ### The objective -/

omit [Scalar.Legible κ] in
theorem constantPieces_cases (o : FlatObjective κ) :
    (o.constant == 0) = true ∧ constantPieces o = []
      ∨ constantPieces o = [next (if o.constant < 0 then "-" else "+"),
        next (Scalar.text (Scalar.abs o.constant))] := by
  unfold constantPieces
  cases hzero : o.constant == 0 with
  | false => exact .inr rfl
  | true =>
      cases o.entries.isEmpty with
      | false => exact .inl ⟨rfl, rfl⟩
      | true => exact .inr rfl

omit [Scalar.Legible κ] in
theorem stops_constant (o : FlatObjective κ) (w : String) (r : List Piece) :
    Stops (constantPieces o ++ first w :: r) := by
  intro sign hsign t n rest heq
  rcases constantPieces_cases o with ⟨-, hnone⟩ | hsome
  · rw [hnone] at heq
    exact next_ne_first _ _ (List.cons.inj heq).1.symm
  · rw [hsome] at heq
    simp only [List.cons_append, List.nil_append, List.cons.injEq] at heq
    exact next_ne_first _ _ heq.2.2.1.symm

theorem constant_inj {o o' : FlatObjective κ} {w : String}
    (h : constantPieces o ++ first w :: r = constantPieces o' ++ first w :: r') :
    Scalar.Alike o.constant o'.constant ∧ r = r' := by
  rcases constantPieces_cases o with ⟨hzero, hnone⟩ | hsome
  · rcases constantPieces_cases o' with ⟨hzero', hnone'⟩ | hsome'
    · rw [hnone, hnone'] at h
      exact ⟨alike_of_zero hzero hzero', (List.cons.inj h).2⟩
    · rw [hnone, hsome'] at h
      exact absurd (List.cons.inj h).1.symm (next_ne_first _ _)
  · rcases constantPieces_cases o' with ⟨hzero', hnone'⟩ | hsome'
    · rw [hsome, hnone'] at h
      exact absurd (List.cons.inj h).1 (next_ne_first _ _)
    · rw [hsome, hsome'] at h
      simp only [List.cons_append, List.nil_append, List.cons.injEq, true_and] at h
      have hsign : o.constant < 0 ↔ o'.constant < 0 := by
        have hwords := eq_of_next_eq h.1
        by_cases hc : o.constant < 0 <;> by_cases hc' : o'.constant < 0 <;>
          simp_all
      exact ⟨alike_of_abs hsign (text_inj (eq_of_next_eq h.2.1)), h.2.2⟩

omit [Scalar.Legible κ] in
theorem constantPieces_of_alone {o : FlatObjective κ} (h : o.entries = []) :
    ∃ sign ∈ ["+", "-"], ∃ t, constantPieces o = [next sign, t] := by
  have halone : constantPieces o = [next (if o.constant < 0 then "-" else "+"),
      next (Scalar.text (Scalar.abs o.constant))] := if_pos (by simp [h])
  rw [halone]
  split
  · exact ⟨"-", by decide, _, rfl⟩
  · exact ⟨"+", by decide, _, rfl⟩

/-- A constant that stands alone begins with its sign, an entry with a number. -/
theorem alone_ne_entries {o : FlatObjective κ} (h : o.entries = []) (e : String × κ) :
    constantPieces o ++ r ≠ entriesPieces 0 (e :: es) ++ r' := by
  obtain ⟨sign, hsign, t, halone⟩ := constantPieces_of_alone h
  obtain ⟨rest, hrest⟩ := entriesPieces_zero_cons e es r'
  rw [halone, hrest]
  intro heq
  have htext : sign = Scalar.text e.2 := eq_of_next_eq (List.cons.inj heq).1
  rw [htext] at hsign
  simp only [List.mem_cons, List.not_mem_nil, or_false] at hsign
  rcases hsign with hplus | hminus
  · exact ne_plus e.2 hplus
  · exact ne_minus e.2 hminus

theorem objective_inj {names names' : Array String} {o o' : FlatObjective κ} {w : String}
    (h : objectivePieces names o ++ first w :: r = objectivePieces names' o' ++ first w :: r') :
    named names o.entries = named names' o'.entries ∧ Scalar.Alike o.constant o'.constant
      ∧ r = r' := by
  simp only [objectivePieces, List.cons_append, List.append_assoc, List.cons.injEq, true_and] at h
  suffices hsame : named names o.entries = named names' o'.entries
      ∧ constantPieces o ++ first w :: r = constantPieces o' ++ first w :: r' from
    ⟨hsame.1, constant_inj hsame.2⟩
  have hentries := h.2
  cases hes : named names o.entries with
  | nil =>
      rw [hes] at hentries
      cases hes' : named names' o'.entries with
      | nil =>
          rw [hes'] at hentries
          exact ⟨rfl, hentries⟩
      | cons e' es' =>
          rw [hes'] at hentries
          exact absurd hentries (alone_ne_entries (List.map_eq_nil_iff.mp hes) e')
  | cons e es =>
      rw [hes] at hentries
      cases hes' : named names' o'.entries with
      | nil =>
          rw [hes'] at hentries
          exact absurd hentries.symm (alone_ne_entries (List.map_eq_nil_iff.mp hes') e)
      | cons e' es' =>
          rw [hes'] at hentries
          exact entries_cons_inj hentries (stops_constant o w r) (stops_constant o' w r')

end LpText

end LinearProgram
