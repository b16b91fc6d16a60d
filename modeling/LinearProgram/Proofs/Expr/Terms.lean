import LinearProgram.Proofs.Expr.Algebra

/-!
The terms that expressions are made of, for scalars of any kind. To add an expression to a sum, or
to subtract it, is to file its terms one after another, each in its own column, and to settle its
constant; nothing is assumed of the arithmetic.
-/

namespace LinearProgram

variable {κ : Type}

/-- The column of a term, as a number. -/
def Term.column (t : Term κ) : Nat := t.ref.start + t.ref.offset

namespace Expr

/-- The terms of an expression; a variable alone is a term with coefficient one. -/
def terms [Scalar κ] : Expr κ → List (Term κ)
  | const _ => []
  | var x => [⟨x, 1⟩]
  | term t => [t]
  | sum s => s.terms.map (·.2)

/-- The constant of an expression, none for a variable or a term. -/
def constants : Expr κ → List κ
  | const v => [v]
  | var _ | term _ => []
  | sum s => [s.constant]

/-- The columns of all terms are machine words. -/
def InWords [Scalar κ] (e : Expr κ) : Prop := ∀ t ∈ e.terms, t.column < Word.limit

instance [Scalar κ] (e : Expr κ) : Decidable e.InWords :=
  inferInstanceAs (Decidable (∀ t ∈ e.terms, t.column < Word.limit))

end Expr

variable [Scalar κ]

def Term.neg (t : Term κ) : Term κ := { t with coefficient := -t.coefficient }

namespace LinearSum

/-- Files terms one after another, each in its own column. -/
def insertAll (ts : List (Term κ)) (terms : List (Nat × Term κ)) : List (Nat × Term κ) :=
  ts.foldl (fun terms t => insert t.column t.ref t.coefficient terms) terms

variable {s : LinearSum κ} {ts : List (Term κ)} {terms : List (Nat × Term κ)} {e : Expr κ}

theorem collect_eq_ok {x : Variable} (c : κ) (h : x.start + x.offset < Word.limit) :
    s.collect x c = .ok { s with terms := insert (x.start + x.offset) x c s.terms } := by
  rw [collect, Variable.column_eq_ok_iff.mpr ⟨h, rfl⟩]
  rfl

theorem foldlM_collect (h : ∀ t ∈ ts, t.column < Word.limit) (s : LinearSum κ) :
    ts.foldlM (fun s t => s.collect t.ref t.coefficient) s
      = .ok { s with terms := insertAll ts s.terms } := by
  induction ts generalizing s with
  | nil => rfl
  | cons t ts ih =>
      obtain ⟨ht, hts⟩ := List.forall_mem_cons.mp h
      rw [List.foldlM_cons, collect_eq_ok t.coefficient ht, Outcome.ok_bind, ih hts]
      rfl

theorem add_eq_ok (s : LinearSum κ) (h : e.InWords) :
    s.add e = .ok ⟨insertAll e.terms s.terms, e.constants.foldl (· + ·) s.constant⟩ := by
  cases e with
  | const v => rfl
  | var x => exact collect_eq_ok 1 (h _ (List.mem_singleton.mpr rfl))
  | term t => exact collect_eq_ok t.coefficient (h _ (List.mem_singleton.mpr rfl))
  | sum r =>
      have hcollect := foldlM_collect h s
      rw [Expr.terms, List.foldlM_map] at hcollect
      rw [add, hcollect]
      rfl

theorem subtract_eq_ok (s : LinearSum κ) (h : e.InWords) :
    s.subtract e
      = .ok ⟨insertAll (e.terms.map Term.neg) s.terms, e.constants.foldl (· - ·) s.constant⟩ := by
  cases e with
  | const v => rfl
  | var x => exact collect_eq_ok (-1) (h _ (List.mem_singleton.mpr rfl))
  | term t => exact collect_eq_ok (-t.coefficient) (h _ (List.mem_singleton.mpr rfl))
  | sum r =>
      have hneg : ∀ t ∈ (Expr.sum r).terms.map Term.neg, t.column < Word.limit :=
        List.forall_mem_map.mpr h
      have hcollect : r.terms.foldlM (fun s p => s.collect p.2.ref (-p.2.coefficient)) s
          = .ok { s with terms := insertAll ((Expr.sum r).terms.map Term.neg) s.terms } := by
        rw [← foldlM_collect hneg s, Expr.terms, List.foldlM_map, List.foldlM_map]
        rfl
      rw [subtract, hcollect]
      rfl

/-! ### What is filed -/

theorem forall_insertAll {P : Nat → Variable → Prop} (hts : ∀ t ∈ ts, P t.column t.ref)
    (h : ∀ p ∈ terms, P p.1 p.2.ref) : ∀ p ∈ insertAll ts terms, P p.1 p.2.ref := by
  induction ts generalizing terms with
  | nil => exact h
  | cons t ts ih =>
      obtain ⟨ht, hrest⟩ := List.forall_mem_cons.mp hts
      exact ih hrest (forall_insert ht h)

theorem ascending_insertAll (h : terms.Pairwise (·.1 < ·.1)) :
    (insertAll ts terms).Pairwise (·.1 < ·.1) := by
  induction ts generalizing terms with
  | nil => exact h
  | cons t ts ih => exact ih (ascending_insert h)

end LinearSum

end LinearProgram
