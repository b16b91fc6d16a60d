import LinearProgram.Proofs.Expr.Terms
import LinearProgram.Scalar.Double
import Mathlib.Data.Finset.Card

/-!
Running results. A sum that receives expressions one after another keeps a ledger by column: the
first term of a column opens it, with its variable and a coefficient of zero, and every term of the
column, that one included, is added to the coefficient in the order of arrival. Main statement: the
coefficients and the constant of the sum are these running results and nothing else, operation by
operation, so they hold for rounded arithmetic as they stand.
-/

namespace LinearProgram

variable {κ : Type} [Scalar κ]

/-- One more expression for a sum. -/
inductive Posting (κ : Type)
  | add (e : Expr κ)
  | subtract (e : Expr κ)

namespace Posting

def expr : Posting κ → Expr κ
  | add e | subtract e => e

def carryOut (s : LinearSum κ) : Posting κ → Outcome (LinearSum κ)
  | add e => s.add e
  | subtract e => s.subtract e

/-- The terms that are added, those of a subtracted expression with the opposite sign. -/
def terms : Posting κ → List (Term κ)
  | add e => e.terms
  | subtract e => e.terms.map Term.neg

/-- The constant after the posting. -/
def settle (v : κ) : Posting κ → κ
  | add e => e.constants.foldl (· + ·) v
  | subtract e => e.constants.foldl (· - ·) v

/-- What postings contribute to the coefficient of a column, in the order of arrival. -/
def contributions (j : Nat) (ps : List (Posting κ)) : List κ :=
  ((ps.flatMap terms).filter (·.column = j)).map Term.coefficient

theorem carryOut_eq_ok (s : LinearSum κ) {p : Posting κ} (h : p.expr.InWords) :
    p.carryOut s = .ok ⟨LinearSum.insertAll p.terms s.terms, p.settle s.constant⟩ := by
  cases p with
  | add e => exact LinearSum.add_eq_ok s h
  | subtract e => exact LinearSum.subtract_eq_ok s h

/-- The variables of all expressions, in the order of arrival. -/
def arrivals (ps : List (Posting κ)) : List Variable := (ps.flatMap (·.expr.terms)).map Term.ref

theorem map_ref_terms (ps : List (Posting κ)) : (ps.flatMap terms).map Term.ref = arrivals ps := by
  rw [arrivals, List.map_flatMap, List.map_flatMap]
  congr 1
  funext p
  cases p with
  | add e => rfl
  | subtract e =>
      rw [terms, List.map_map]
      rfl

end Posting

namespace LinearSum

/-- Carries postings out one after another. -/
def post (s : LinearSum κ) (ps : List (Posting κ)) : Outcome (LinearSum κ) :=
  ps.foldlM Posting.carryOut s

/-- What a column holds when one more term has been filed in it. -/
def accrue (held : Option (Term κ)) (t : Term κ) : Term κ :=
  match held with
  | some opened => { opened with coefficient := opened.coefficient + t.coefficient }
  | none => { t with coefficient := 0 + t.coefficient }

variable {s : LinearSum κ} {ts : List (Term κ)} {terms : List (Nat × Term κ)} {j : Nat}

theorem post_eq_ok {ps : List (Posting κ)} (hps : ∀ p ∈ ps, p.expr.InWords) (s : LinearSum κ) :
    s.post ps
      = .ok ⟨insertAll (ps.flatMap Posting.terms) s.terms, ps.foldl Posting.settle s.constant⟩ := by
  induction ps generalizing s with
  | nil => rfl
  | cons p ps ih =>
      obtain ⟨hp, hrest⟩ := List.forall_mem_cons.mp hps
      have hstep : s.post (p :: ps)
          = post ⟨insertAll p.terms s.terms, p.settle s.constant⟩ ps := by
        rw [post, List.foldlM_cons, Posting.carryOut_eq_ok s hp]
        rfl
      rw [hstep, ih hrest, List.flatMap_cons, insertAll, insertAll, insertAll, List.foldl_append]
      rfl

/-! ### One column -/

omit [Scalar κ] in
theorem find?_of_lt {β : Type} {filed : List (Nat × β)} (h : ∀ p ∈ filed, j < p.1) :
    Keyed.find? j filed = none := by
  induction filed with
  | nil => rfl
  | cons p rest ih =>
      obtain ⟨hp, hrest⟩ := List.forall_mem_cons.mp h
      rw [Keyed.find?, if_neg hp.ne', ih hrest]

theorem find?_insert_of_ne {k : Nat} (hne : j ≠ k) (x : Variable) (c : κ) :
    Keyed.find? k (insert j x c terms) = Keyed.find? k terms := by
  induction terms with
  | nil => exact if_neg hne
  | cons p rest ih =>
      rw [insert]
      split
      · exact if_neg hne
      split
      · rename_i hsame
        subst hsame
        rw [Keyed.find?, Keyed.find?, if_neg hne, if_neg hne]
      · rw [Keyed.find?, Keyed.find?, ih]

theorem find?_insert_self (h : terms.Pairwise (·.1 < ·.1)) (x : Variable) (c : κ) :
    Keyed.find? j (insert j x c terms) = some (accrue (Keyed.find? j terms) ⟨x, c⟩) := by
  induction terms with
  | nil => exact if_pos rfl
  | cons p rest ih =>
      obtain ⟨hfirst, hrest⟩ := List.pairwise_cons.mp h
      rw [insert]
      split
      · rename_i hlt
        -- the column is new, since all others come after it
        have hbefore : ∀ q ∈ p :: rest, j < q.1 :=
          List.forall_mem_cons.mpr ⟨hlt, fun q hq => hlt.trans (hfirst q hq)⟩
        rw [find?_of_lt hbefore]
        exact if_pos rfl
      split
      · rename_i hsame
        subst hsame
        rw [Keyed.find?, Keyed.find?, if_pos rfl, if_pos rfl]
        rfl
      · rename_i hother
        rw [Keyed.find?, Keyed.find?, if_neg (Ne.symm hother), if_neg (Ne.symm hother),
          ih hrest]

/-- Of all terms that are filed, a column receives its own, in their order. -/
theorem find?_insertAll (h : terms.Pairwise (·.1 < ·.1)) (ts : List (Term κ)) (j : Nat) :
    Keyed.find? j (insertAll ts terms)
      = (ts.filter (·.column = j)).foldl (fun held t => some (accrue held t))
        (Keyed.find? j terms) := by
  induction ts generalizing terms with
  | nil => rfl
  | cons t ts ih =>
      have hstep := ih (ascending_insert (j := t.column) (x := t.ref) (c := t.coefficient) h)
      rw [insertAll, List.foldl_cons, ← insertAll, hstep]
      by_cases ht : t.column = j
      · rw [List.filter_cons_of_pos (by simpa using ht), List.foldl_cons, ← ht,
          find?_insert_self h]
      · rw [List.filter_cons_of_neg (by simpa using ht), find?_insert_of_ne ht]

theorem foldl_accrue_some (opened : Term κ) (ts : List (Term κ)) :
    ts.foldl (fun held t => some (accrue held t)) (some opened)
      = some { opened with
          coefficient := (ts.map Term.coefficient).foldl (· + ·) opened.coefficient } := by
  induction ts generalizing opened with
  | nil => rfl
  | cons t ts ih => rw [List.foldl_cons, accrue, ih]; rfl

/-- The first term of a column opens it, and each term counts once, the first one from zero. -/
theorem foldl_accrue (ts : List (Term κ)) :
    ts.foldl (fun held t => some (accrue held t)) none
      = ts.head?.map fun first =>
        { first with coefficient := (ts.map Term.coefficient).foldl (· + ·) 0 } := by
  cases ts with
  | nil => rfl
  | cons t ts =>
      rw [List.foldl_cons, accrue, foldl_accrue_some]
      rfl

/-! ### All columns -/

omit [Scalar κ] in
theorem find?_of_mem (h : terms.Pairwise (·.1 < ·.1)) {p : Nat × Term κ} (hp : p ∈ terms) :
    Keyed.find? p.1 terms = some p.2 := by
  induction terms with
  | nil => cases hp
  | cons q rest ih =>
      obtain ⟨hfirst, hrest⟩ := List.pairwise_cons.mp h
      rcases List.mem_cons.mp hp with rfl | hp
      · exact if_pos rfl
      · rw [Keyed.find?, if_neg (hfirst p hp).ne, ih hrest hp]

/-- A column holds its first term, with all that the column has received for a coefficient. -/
theorem find?_posted (ps : List (Posting κ)) (j : Nat) :
    Keyed.find? j (insertAll (ps.flatMap Posting.terms) [])
      = ((Posting.arrivals ps).find? fun x => x.start + x.offset = j).map fun x =>
        ⟨x, (Posting.contributions j ps).foldl (· + ·) 0⟩ := by
  rw [find?_insertAll .nil, Keyed.find?, foldl_accrue, List.head?_filter, ← Posting.map_ref_terms,
    List.find?_map, Option.map_map]
  rfl

theorem mem_posted_iff (ps : List (Posting κ)) (p : Nat × Term κ) :
    p ∈ insertAll (ps.flatMap Posting.terms) []
      ↔ (Posting.arrivals ps).find? (fun x => x.start + x.offset = p.1) = some p.2.ref
        ∧ p.2.coefficient = (Posting.contributions p.1 ps).foldl (· + ·) 0 := by
  obtain ⟨j, x, c⟩ := p
  have hmem : (j, ⟨x, c⟩) ∈ insertAll (ps.flatMap Posting.terms) []
      ↔ Keyed.find? j (insertAll (ps.flatMap Posting.terms) []) = some ⟨x, c⟩ :=
    ⟨find?_of_mem (ascending_insertAll .nil), Keyed.mem_of_find?⟩
  rw [hmem, find?_posted, Option.map_eq_some_iff]
  constructor
  · rintro ⟨y, hy, heq⟩
    cases heq
    exact ⟨hy, rfl⟩
  · rintro ⟨hx, hc⟩
    have hc' : c = (Posting.contributions j ps).foldl (· + ·) 0 := hc
    exact ⟨x, hx, by rw [hc']⟩

theorem mem_columns_posted_iff (ps : List (Posting κ)) (j : Nat) :
    j ∈ (insertAll (ps.flatMap Posting.terms) []).map Prod.fst
      ↔ ∃ x ∈ Posting.arrivals ps, x.start + x.offset = j := by
  constructor
  · intro hj
    obtain ⟨p, hp, rfl⟩ := List.mem_map.mp hj
    obtain ⟨hfirst, -⟩ := (mem_posted_iff ps p).mp hp
    exact ⟨_, List.mem_of_find?_eq_some hfirst, by simpa using List.find?_some hfirst⟩
  · rintro ⟨x, hx, hj⟩
    have hsome : ((Posting.arrivals ps).find? fun x => x.start + x.offset = j).isSome :=
      List.find?_isSome.mpr ⟨x, hx, by simpa using hj⟩
    obtain ⟨y, hy⟩ := Option.isSome_iff_exists.mp hsome
    have hfiled : (j, ⟨y, (Posting.contributions j ps).foldl (· + ·) 0⟩)
        ∈ insertAll (ps.flatMap Posting.terms) [] := (mem_posted_iff ps _).mpr ⟨hy, rfl⟩
    exact List.mem_map.mpr ⟨_, hfiled, rfl⟩

/-- There is one term for each column that has ever been met, also where it has cancelled. -/
theorem length_posted (ps : List (Posting κ)) :
    (insertAll (ps.flatMap Posting.terms) []).length
      = ((Posting.arrivals ps).map fun x => x.start + x.offset).toFinset.card := by
  have hascending : (insertAll (ps.flatMap Posting.terms) []).Pairwise (·.1 < ·.1) :=
    ascending_insertAll .nil
  have hnodup : ((insertAll (ps.flatMap Posting.terms) []).map Prod.fst).Nodup :=
    (List.pairwise_map.mpr hascending).imp fun hlt => Nat.ne_of_lt hlt
  rw [← List.length_map Prod.fst, ← List.toFinset_card_of_nodup hnodup]
  congr 1
  ext j
  rw [List.mem_toFinset, List.mem_toFinset, mem_columns_posted_iff, List.mem_map]

/-- A sum that starts from a constant takes in any expressions with columns in words. A column has
a coefficient just if some variable of theirs is in it, and the coefficient is what comes of adding
the contributions of the column to zero, one after another in the order of arrival; the constant is
settled in the same order. The terms stand in the order of their columns, each under its own and
filed for the first variable that arrived in it, and there are as many as distinct columns. -/
theorem running_results_of_postings (v : κ) (ps : List (Posting κ))
    (hps : ∀ p ∈ ps, p.expr.InWords) :
    ∃ s, (ofConstant v).post ps = .ok s
      ∧ (∀ j, s.coefficient? j = none ↔ ∀ x ∈ Posting.arrivals ps, x.start + x.offset ≠ j)
      ∧ (∀ j c, s.coefficient? j = some c →
        c = (Posting.contributions j ps).foldl (· + ·) 0)
      ∧ s.constant = ps.foldl Posting.settle v
      ∧ s.terms.Pairwise (·.1 < ·.1)
      ∧ (∀ p ∈ s.terms, p.2.ref.start + p.2.ref.offset = p.1
        ∧ (Posting.arrivals ps).find? (fun x => x.start + x.offset = p.1) = some p.2.ref)
      ∧ s.terms.length = ((Posting.arrivals ps).map fun x => x.start + x.offset).toFinset.card := by
  refine ⟨_, post_eq_ok hps (ofConstant v), fun j => ?_, fun j c hc => ?_, rfl,
    ascending_insertAll .nil, fun p hp => ?_, length_posted ps⟩
  · rw [coefficient?, ofConstant, find?_posted, Option.map_map, Option.map_eq_none_iff,
      List.find?_eq_none]
    simp only [decide_eq_true_eq, ne_eq]
  · rw [coefficient?, ofConstant, find?_posted, Option.map_map, Option.map_eq_some_iff] at hc
    obtain ⟨x, -, rfl⟩ := hc
    rfl
  · obtain ⟨hfirst, -⟩ := (mem_posted_iff ps p).mp hp
    exact ⟨by simpa using List.find?_some hfirst, hfirst⟩

/-- Two variables in column five, added and subtracted, beside constants. -/
def crossedPostings : List (Posting Float) :=
  [.add (.term ⟨⟨3, 2⟩, 0.5⟩), .subtract (.sum ⟨[(5, ⟨⟨5, 0⟩, 0.25⟩)], 2⟩),
    .subtract (.var ⟨3, 2⟩), .add (.const 0.125)]

theorem running_results_of_crossedPostings :
    (∀ p ∈ crossedPostings, p.expr.InWords)
      ∧ ∃ s, (ofConstant 1).post crossedPostings = .ok s
        ∧ (∀ c, s.coefficient? 5 = some c → c = 0 + 0.5 + -0.25 + -1)
        ∧ s.coefficient? 3 = none ∧ s.constant = 1 - 2 + 0.125 ∧ s.terms.length = 1
        ∧ ∀ p ∈ s.terms, p.1 = 5 → p.2.ref = ⟨3, 2⟩ := by
  have hwords : ∀ p ∈ crossedPostings, p.expr.InWords := by decide
  have hfive : ∀ x ∈ Posting.arrivals crossedPostings, x.start + x.offset = 5 := by decide
  have hfirst : (Posting.arrivals crossedPostings).find? (fun x => x.start + x.offset = 5)
      = some ⟨3, 2⟩ := by decide
  obtain ⟨s, hs, hnone, hsome, hconstant, -, hfiled, hlength⟩ :=
    running_results_of_postings (1 : Float) crossedPostings hwords
  refine ⟨hwords, s, hs, hsome 5, (hnone 3).mpr fun x hx => ?_, hconstant, hlength,
    fun p hp hcolumn => ?_⟩
  · rw [hfive x hx]
    decide
  · obtain ⟨-, hvariable⟩ := hfiled p hp
    rw [hcolumn, hfirst, Option.some.injEq] at hvariable
    exact hvariable.symm

end LinearSum

end LinearProgram
