import LinearProgram.Proofs.Expr.Affine
import LinearProgram.Proofs.Outcome

/-!
Expressions in good order: every variable has a column that is a machine word, and a sum files its
terms under their own columns, in increasing order. Such an expression has a linear form, in
canonical form, and a value at every point that reaches all its columns.
-/

namespace LinearProgram

variable {κ : Type}

theorem Variable.column_eq_ok_iff {x : Variable} {j : Nat} :
    x.column = .ok j ↔ x.start + x.offset < Word.limit ∧ x.start + x.offset = j :=
  Word.add_eq_ok_iff

namespace LinearSum

/-- Terms stand under their own columns, in increasing order. -/
structure Filed (terms : List (Nat × Term κ)) : Prop where
  column : ∀ p ∈ terms, p.2.ref.column = .ok p.1
  ascending : terms.Pairwise (·.1 < ·.1)

def entries (terms : List (Nat × Term κ)) : List (Nat × κ) :=
  terms.map fun p => (p.1, p.2.coefficient)

theorem dot_entries_cons (point : Nat → Rat) (p : Nat × Term Rat)
    (rest : List (Nat × Term Rat)) :
    LinearForm.dot point (entries (p :: rest))
      = p.2.coefficient * point p.1 + LinearForm.dot point (entries rest) := rfl

end LinearSum

namespace Expr

def Filed : Expr κ → Prop
  | const _ => True
  | var x => x.start + x.offset < Word.limit
  | term t => t.ref.start + t.ref.offset < Word.limit
  | sum s => LinearSum.Filed s.terms

/-- The entries of an expression in good order, those that have cancelled included. -/
def raw [Scalar κ] : Expr κ → LinearForm κ
  | const v => ⟨[], v⟩
  | var x => ⟨[(x.start + x.offset, 1)], 0⟩
  | term t => ⟨[(t.ref.start + t.ref.offset, t.coefficient)], 0⟩
  | sum s => ⟨LinearSum.entries s.terms, s.constant⟩

/-- The entries of an expression in good order, without those that have cancelled. -/
def live [Scalar κ] (e : Expr κ) : List (Nat × κ) :=
  e.raw.entries.filter fun (_, c) => !(c == 0)

/-- An expression in good order with the values of `f`. -/
structure Means (e : Expr Rat) (f : (Nat → Rat) → Rat) : Prop where
  filed : e.Filed
  value : ∀ x, e.raw.valueAt x = f x

theorem Means.congr {e : Expr Rat} {f g : (Nat → Rat) → Rat} (h : e.Means f)
    (hfg : ∀ x, f x = g x) : e.Means g :=
  ⟨h.filed, fun x => (h.value x).trans (hfg x)⟩

end Expr

/-! ### Linear forms -/

theorem LinearSum.mapM_column {terms : List (Nat × Term κ)}
    (h : ∀ p ∈ terms, p.2.ref.column = .ok p.1) :
    (terms.mapM fun (_, t) => return (← t.ref.column, t.coefficient) : Outcome (List (Nat × κ)))
      = .ok (entries terms) := by
  rw [Outcome.mapM_eq_ok_iff, entries, List.forall₂_map_right_iff, List.forall₂_same]
  intro p hp
  exact Outcome.bind_eq_ok_iff.mpr ⟨p.1, h p hp, rfl⟩

namespace Expr

variable {e : Expr Rat}

theorem Filed.rawForm [Scalar κ] {e : Expr κ} (h : e.Filed) : e.rawForm = .ok e.raw := by
  cases e with
  | const v => rfl
  | var x =>
      have hcolumn := Variable.column_eq_ok_iff.mpr ⟨h, rfl⟩
      rw [Expr.rawForm, hcolumn]
      rfl
  | term t =>
      have hcolumn := Variable.column_eq_ok_iff.mpr ⟨h, rfl⟩
      rw [Expr.rawForm, hcolumn]
      rfl
  | sum s =>
      rw [Expr.rawForm, LinearSum.mapM_column h.column]
      rfl

theorem Filed.ascending [Scalar κ] {e : Expr κ} (h : e.Filed) :
    e.raw.entries.Pairwise (·.1 < ·.1) := by
  cases e with
  | const v => exact .nil
  | var x => exact List.pairwise_singleton _ _
  | term t => exact List.pairwise_singleton _ _
  | sum s => exact List.pairwise_map.mpr (LinearSum.Filed.ascending h)

theorem Filed.linearForm [Scalar κ] {e : Expr κ} (h : e.Filed) :
    e.linearForm = .ok ⟨e.live, e.raw.constant⟩ := by
  rw [Expr.linearForm, h.rawForm]
  rfl

theorem dot_live (e : Expr Rat) (x : Nat → Rat) :
    LinearForm.dot x e.live = LinearForm.dot x e.raw.entries :=
  LinearForm.dot_filter_ne_zero x e.raw.entries

theorem Means.linearForm {f : (Nat → Rat) → Rat} (h : e.Means f) :
    ∃ form, e.linearForm = .ok form ∧ form.Canonical ∧ ∀ x, form.valueAt x = f x := by
  refine ⟨_, h.filed.linearForm, ?_, ?_⟩
  · constructor
    · exact h.filed.ascending.filter _
    · intro p hp
      simpa using (List.mem_filter.mp hp).2
  · intro x
    rw [← h.value x, LinearForm.valueAt, LinearForm.valueAt, dot_live]

theorem Means.linearForm_eq_iff {e' : Expr Rat} {f g : (Nat → Rat) → Rat} (h : e.Means f)
    (h' : e'.Means g) : e.linearForm = e'.linearForm ↔ ∀ x, f x = g x := by
  obtain ⟨form, hform, hcanonical, hvalue⟩ := h.linearForm
  obtain ⟨form', hform', hcanonical', hvalue'⟩ := h'.linearForm
  rw [hform, hform']
  constructor
  · intro heq x
    cases heq
    rw [← hvalue x, hvalue' x]
  · intro hfg
    have hsame : form = form' := by
      apply hcanonical.unique hcanonical'
      intro x
      rw [hvalue, hvalue', hfg]
    rw [hsame]

end Expr

/-! ### Values -/

theorem Term.value_eq {t : Term Rat} {j : Nat} (h : t.ref.column = .ok j) (point : List Rat) :
    t.value point
      = .ok (if j < point.length then some (t.coefficient * point.getD j 0) else none) := by
  rw [Term.value, h, Outcome.ok_bind]
  by_cases hj : j < point.length
  · rw [if_pos hj, List.getD_eq_getElem?_getD, List.getElem?_eq_getElem hj]
    rfl
  · rw [if_neg hj, List.getElem?_eq_none (by omega)]
    rfl

theorem LinearSum.evaluate_go {terms : List (Nat × Term Rat)}
    (h : ∀ p ∈ terms, p.2.ref.column = .ok p.1) (acc : Rat) (point : List Rat) :
    evaluate.go point acc terms
      = .ok (if ∀ p ∈ entries terms, p.1 < point.length then
          some (acc + LinearForm.dot (point.getD · 0) (entries terms)) else none) := by
  induction terms generalizing acc with
  | nil => simp [evaluate.go, entries, LinearForm.dot]
  | cons p rest ih =>
      obtain ⟨hp, hrest⟩ := List.forall_mem_cons.mp h
      have hall : (∀ q ∈ entries (p :: rest), q.1 < point.length)
          ↔ p.1 < point.length ∧ ∀ q ∈ entries rest, q.1 < point.length := List.forall_mem_cons
      rw [evaluate.go, Term.value_eq hp, Outcome.ok_bind]
      by_cases hreach : p.1 < point.length
      · simp only [ih hrest, dot_entries_cons, add_assoc, hall, hreach, if_true, true_and]
      · simp only [hall, hreach, false_and, if_false]
        rfl

/-- The value at a point, none just if some column of the expression is beyond the point. -/
theorem Expr.Means.evaluate {e : Expr Rat} {f : (Nat → Rat) → Rat} (h : e.Means f)
    (point : List Rat) :
    e.evaluate point
      = .ok (if ∀ p ∈ e.raw.entries, p.1 < point.length then some (f (point.getD · 0))
          else none) := by
  rw [← h.value]
  cases e with
  | const v => simp [Expr.evaluate, Expr.raw, LinearForm.valueAt, LinearForm.dot]
  | var x =>
      have hcolumn := Variable.column_eq_ok_iff.mpr ⟨h.filed, rfl⟩
      rw [Expr.evaluate, hcolumn, Outcome.ok_bind]
      by_cases hreach : x.start + x.offset < point.length
      · simp [Expr.raw, LinearForm.valueAt, LinearForm.dot, hreach]
      · simp [Expr.raw, hreach]
  | term t =>
      have hcolumn := Variable.column_eq_ok_iff.mpr ⟨h.filed, rfl⟩
      rw [Expr.evaluate, Term.value_eq hcolumn]
      simp [Expr.raw, LinearForm.valueAt, LinearForm.dot]
  | sum s => exact LinearSum.evaluate_go h.filed.column s.constant point

end LinearProgram
