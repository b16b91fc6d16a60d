import LinearProgram.Proofs.Expr.Terms

/-!
The form that a result has, for scalars of any kind. Between expressions with columns in words,
sums and differences always exist, and a result is a bare number just if both operands are:
nothing that is computed with coefficients has a say in it.
-/

namespace LinearProgram

variable {κ : Type} [Scalar κ]

namespace LinearSum

variable {s : LinearSum κ} {ts : List (Term κ)} {e : Expr κ}

theorem insertAll_inWords (hts : ∀ t ∈ ts, t.column < Word.limit) (hs : (Expr.sum s).InWords)
    (v : κ) : (Expr.sum ⟨insertAll ts s.terms, v⟩).InWords := by
  have hfiled : ∀ p ∈ s.terms, p.2.ref.start + p.2.ref.offset < Word.limit :=
    List.forall_mem_map.mp hs
  exact List.forall_mem_map.mpr
    (forall_insertAll (P := fun _ x => x.start + x.offset < Word.limit) hts hfiled)

theorem add_inWords (hs : (Expr.sum s).InWords) (he : e.InWords) :
    ∃ r, s.add e = .ok r ∧ (Expr.sum r).InWords :=
  ⟨_, add_eq_ok s he, insertAll_inWords he hs _⟩

theorem subtract_inWords (hs : (Expr.sum s).InWords) (he : e.InWords) :
    ∃ r, s.subtract e = .ok r ∧ (Expr.sum r).InWords := by
  have hneg : ∀ t ∈ e.terms.map Term.neg, t.column < Word.limit := List.forall_mem_map.mpr he
  exact ⟨_, subtract_eq_ok s he, insertAll_inWords hneg hs _⟩

theorem addAll_inWords {es : List (Expr κ)} (hs : (Expr.sum s).InWords)
    (hes : ∀ e ∈ es, e.InWords) : ∃ r, es.foldlM add s = .ok r ∧ (Expr.sum r).InWords := by
  induction es generalizing s with
  | nil => exact ⟨s, rfl, hs⟩
  | cons e es ih =>
      obtain ⟨he, hrest⟩ := List.forall_mem_cons.mp hes
      obtain ⟨r, hr, hwords⟩ := add_inWords hs he
      rw [List.foldlM_cons, hr]
      exact ih hwords hrest

end LinearSum

namespace Expr

/-- There is a result, in words, and it is a bare number just under the given condition. -/
def Yields (o : Outcome (Expr κ)) (bare : Prop) : Prop :=
  ∃ e, o = .ok e ∧ e.InWords ∧ (e.form = .constant ↔ bare)

variable {a b : Expr κ} {bare : Prop}

theorem yields_const (v : κ) (h : bare) : Yields (.ok (const v)) bare :=
  ⟨const v, rfl, nofun, iff_of_true rfl h⟩

theorem yields_sum {o : Outcome (LinearSum κ)} (ho : ∃ r, o = .ok r ∧ (sum r).InWords)
    (h : ¬bare) : Yields (do return sum (← o)) bare := by
  obtain ⟨r, rfl, hr⟩ := ho
  exact ⟨sum r, rfl, hr, iff_of_false nofun h⟩

theorem toSum_inWords (ha : a.InWords) : ∃ s, a.toSum = .ok s ∧ (sum s).InWords := by
  have hzero : (sum (.zero : LinearSum κ)).InWords := nofun
  cases a with
  | const v => exact ⟨_, rfl, nofun⟩
  | var x => exact LinearSum.add_inWords hzero ha
  | term t => exact LinearSum.add_inWords hzero ha
  | sum s => exact ⟨s, rfl, ha⟩

omit [Scalar κ] in
theorem exists_const_of_form (h : a.form = .constant) : ∃ v, a = const v := by
  cases a with
  | const v => exact ⟨v, rfl⟩
  | _ => cases h

omit [Scalar κ] in
theorem not_constants (h : ∀ v w, a = const v → b = const w → False) :
    ¬(a.form = .constant ∧ b.form = .constant) := by
  rintro ⟨ha, hb⟩
  obtain ⟨v, rfl⟩ := exists_const_of_form ha
  obtain ⟨w, rfl⟩ := exists_const_of_form hb
  exact h v w rfl rfl

theorem add_yields (ha : a.InWords) (hb : b.InWords) :
    Yields (a.add b) (a.form = .constant ∧ b.form = .constant) := by
  unfold add
  split
  · exact yields_const _ ⟨rfl, rfl⟩
  · exact yields_sum (LinearSum.add_inWords ha hb) nofun
  · exact yields_sum (LinearSum.add_inWords hb ha) nofun
  · rename_i hmixed
    obtain ⟨s, hs, hwords⟩ := toSum_inWords ha
    rw [hs]
    exact yields_sum (LinearSum.add_inWords hwords hb) (not_constants hmixed)

theorem sub_yields (ha : a.InWords) (hb : b.InWords) :
    Yields (a.sub b) (a.form = .constant ∧ b.form = .constant) := by
  unfold sub
  split
  · exact yields_const _ ⟨rfl, rfl⟩
  · rename_i hmixed
    obtain ⟨s, hs, hwords⟩ := toSum_inWords ha
    rw [hs]
    exact yields_sum (LinearSum.subtract_inWords hwords hb) (not_constants hmixed)

theorem scale_yields (k : κ) (ha : a.InWords) : Yields (.ok (a.scale k)) (a.form = .constant) := by
  refine ⟨_, rfl, ?_, ?_⟩
  · cases a with
    | const v => exact nofun
    | var x =>
        have hx : (⟨x, 1⟩ : Term κ).column < Word.limit := ha _ (List.mem_singleton.mpr rfl)
        exact List.forall_mem_singleton.mpr hx
    | term t =>
        have ht : t.column < Word.limit := ha _ (List.mem_singleton.mpr rfl)
        exact List.forall_mem_singleton.mpr ht
    | sum s =>
        have hterms := List.forall_mem_map.mp ha
        exact List.forall_mem_map.mpr (List.forall_mem_map.mpr hterms)
  · have hform : (a.scale k).form = .constant ↔ a.form = .constant := by
      cases a with
      | const v => exact iff_of_true rfl rfl
      | _ => exact iff_of_false nofun nofun
    exact hform

theorem total_yields {es : List (Expr κ)} (hes : ∀ e ∈ es, e.InWords) (h : ¬bare) :
    Yields (total es) bare :=
  yields_sum (LinearSum.addAll_inWords nofun hes) h

/-! ### Products and quotients -/

theorem mul_refused (ha : a.form ≠ .constant) (hb : b.form ≠ .constant) :
    a.mul b = .refuse (.product a.form b.form) := by
  unfold mul
  split
  · exact absurd rfl ha
  · exact absurd rfl ha
  · exact absurd rfl hb
  · rfl

/-- A product with a bare factor is the other factor, scaled. -/
theorem mul_yields (ha : a.InWords) (hb : b.InWords)
    (h : a.form = .constant ∨ b.form = .constant) :
    Yields (a.mul b) (a.form = .constant ∧ b.form = .constant) := by
  unfold mul
  split
  · exact yields_const _ ⟨rfl, rfl⟩
  · rename_i k _
    have hbare : (const k).form = .constant ∧ b.form = .constant ↔ b.form = .constant :=
      and_iff_right rfl
    rw [hbare]
    exact scale_yields k hb
  · rename_i k _
    have hbare : a.form = .constant ∧ (const k).form = .constant ↔ a.form = .constant :=
      and_iff_left rfl
    rw [hbare]
    exact scale_yields k ha
  · rename_i hconst hconst' _
    rcases h with h | h
    · obtain ⟨v, rfl⟩ := exists_const_of_form h
      exact (hconst v rfl).elim
    · obtain ⟨v, rfl⟩ := exists_const_of_form h
      exact (hconst' v rfl).elim

theorem div_refused (a : Expr κ) (hb : b.form ≠ .constant) :
    a.div b = .refuse (.quotient a.form b.form) := by
  unfold div
  split
  · exact absurd rfl hb
  · rfl

theorem div_zero_refused (a : Expr κ) {k : κ} (hk : (k == 0) = true) :
    a.div (const k) = .refuse .divisionByZero := if_pos hk

theorem div_yields (ha : a.InWords) {k : κ} (hk : (k == 0) = false) :
    Yields (a.div (const k)) (a.form = .constant) := by
  rw [div, if_neg (by rw [hk]; nofun)]
  exact scale_yields _ ha

end Expr

end LinearProgram
