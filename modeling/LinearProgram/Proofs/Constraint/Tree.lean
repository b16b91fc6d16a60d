import LinearProgram.Constraint.Tree
import LinearProgram.Proofs.Constraint.Holds
import LinearProgram.Proofs.Expr.Tree
import Mathlib.Data.List.Perm.Basic

/-!
Written constraints and the points where they hold. A written constraint is a base, which compares
or bounds expressions, with a chain of further bounds. Main statement: when it evaluates, and at
which points the result holds.
-/

namespace LinearProgram

variable {κ ε α : Type}

/-- One more bound of a written constraint, given by an expression or as a number. -/
inductive Link (κ ε : Type)
  | chain (side : Side) (b : ε)
  | cap (side : Side) (v : κ)

def Link.Bounds (value : ε → Outcome (Expr κ)) (p : Side × κ) : Link κ ε → Prop
  | chain side b => p.1 = side ∧ value b = .ok (.const p.2)
  | cap side v => p = (side, v)

/-- The number `y` respects a link, where operands stand for numbers. -/
def Link.Admits (number : ε → Rat) (y : Rat) : Link Rat ε → Prop
  | chain side b => side.Admits (number b) y
  | cap side v => side.Admits v y

namespace ConstraintTree

def base : ConstraintTree κ ε → ConstraintTree κ ε
  | chain _ c _ | cap _ c _ => c.base
  | c => c

/-- The further bounds, the last one first. -/
def links : ConstraintTree κ ε → List (Link κ ε)
  | chain side c b => .chain side b :: c.links
  | cap side c v => .cap side v :: c.links
  | _ => []

def operands : ConstraintTree κ ε → List ε
  | compare _ a b => [a, b]
  | chain _ c b => b :: c.operands
  | cap _ c _ => c.operands
  | bounded _ e _ | ranged e _ _ => [e]

def isConstant (value : ε → Outcome (Expr κ)) (b : ε) : Bool :=
  ((value b).toOption.bind Expr.constant?).isSome

/-- Both sides of a comparison are constants, or the right side of a chained one is not. -/
def Unsupported (value : ε → Outcome (Expr κ)) : ConstraintTree κ ε → Prop
  | compare _ a b => isConstant value a ∧ isConstant value b
  | chain _ c b => c.Unsupported value ∨ ¬isConstant value b
  | cap _ c _ => c.Unsupported value
  | bounded .. | ranged .. => False

/-- What is constrained: the side that is no constant, the difference if neither side is one. -/
def subject (value : ε → Outcome (Expr Rat)) (number : ε → Rat) : ConstraintTree Rat ε → Rat
  | compare _ a b =>
    Constraint.compared (isConstant value a) (isConstant value b) (number a) (number b)
  | chain _ c _ | cap _ c _ => c.subject value number
  | bounded _ e _ | ranged e _ _ => number e

/-- The base comparison holds, where operands stand for numbers. -/
def BaseHolds (number : ε → Rat) : ConstraintTree Rat ε → Prop
  | compare r a b => r.Holds (number a) (number b)
  | chain _ c _ | cap _ c _ => c.BaseHolds number
  | bounded r e v => r.Holds (number e) v
  | ranged e lower upper => lower ≤ number e ∧ number e ≤ upper

theorem isConstant_of_eq {value : ε → Outcome (Expr κ)} {b : ε} {e : Expr κ}
    (h : value b = .ok e) : isConstant value b = e.constant?.isSome := by
  rw [isConstant, h]
  rfl

end ConstraintTree

theorem Constraint.chain_eq_ok_iff [Scalar κ] {c c' : Constraint κ} {side : Side} {e : Expr κ} :
    c.chain side e = .ok c' ↔ ∃ v, e = .const v ∧ c.cap v side = c' := by
  cases e with
  | const v =>
      constructor
      · intro h
        cases h
        exact ⟨v, rfl, rfl⟩
      · rintro ⟨w, hw, rfl⟩
        cases hw
        rfl
  | var x => simp [chain]
  | term t => simp [chain]
  | sum s => simp [chain]

theorem Constraint.chain_of_not_constant [Scalar κ] (c : Constraint κ) (side : Side) {e : Expr κ}
    (h : ¬e.constant?.isSome) : (c.chain side e).RefusedAs .unsupported := by
  cases e with
  | const v => exact absurd rfl h
  | var x => exact ⟨_, rfl, rfl⟩
  | term t => exact ⟨_, rfl, rfl⟩
  | sum s => exact ⟨_, rfl, rfl⟩

namespace ConstraintTree

/-! ### Order of bounds -/

section Order

variable [Scalar κ] {value : ε → Outcome (Expr κ)} {t : ConstraintTree κ ε} {c : Constraint κ}

theorem eval_chain_eq_ok_iff {side : Side} {b : ε} :
    (chain side t b).eval value = .ok c
      ↔ ∃ c₀ v, t.eval value = .ok c₀ ∧ value b = .ok (.const v) ∧ c₀.cap v side = c := by
  constructor
  · intro h
    obtain ⟨c₀, hc₀, hrest⟩ := Outcome.bind_eq_ok_iff.mp h
    obtain ⟨e, he, hchain⟩ := Outcome.bind_eq_ok_iff.mp hrest
    obtain ⟨v, rfl, hcap⟩ := Constraint.chain_eq_ok_iff.mp hchain
    exact ⟨c₀, v, hc₀, he, hcap⟩
  · rintro ⟨c₀, v, hc₀, hv, rfl⟩
    rw [eval, hc₀, Outcome.ok_bind, hv]
    rfl

theorem eval_cap_eq_ok_iff {side : Side} {v : κ} :
    (cap side t v).eval value = .ok c ↔ ∃ c₀, t.eval value = .ok c₀ ∧ c₀.cap v side = c := by
  constructor
  · intro h
    obtain ⟨c₀, hc₀, heq⟩ := Outcome.bind_eq_ok_iff.mp h
    cases heq
    exact ⟨c₀, hc₀, rfl⟩
  · rintro ⟨c₀, hc₀, rfl⟩
    rw [eval, hc₀]
    rfl

/-- A written constraint evaluates to its base, tightened by what its links evaluate to. -/
theorem eval_eq_ok_iff :
    t.eval value = .ok c ↔ ∃ c₀ bounds, t.base.eval value = .ok c₀
      ∧ List.Forall₂ (fun l p => l.Bounds value p) t.links bounds
      ∧ bounds.foldr (fun p c => c.cap p.2 p.1) c₀ = c := by
  induction t generalizing c with
  | compare r a b => simp [base, links]
  | bounded r e v => simp [base, links]
  | ranged e lower upper => simp [base, links]
  | chain side t b ih =>
      rw [eval_chain_eq_ok_iff]
      constructor
      · rintro ⟨c₁, v, hc₁, hv, rfl⟩
        obtain ⟨c₀, bounds, hbase, hlinks, rfl⟩ := ih.mp hc₁
        exact ⟨c₀, (side, v) :: bounds, hbase, .cons ⟨rfl, hv⟩ hlinks, rfl⟩
      · rintro ⟨c₀, bounds, hbase, hlinks, rfl⟩
        cases hlinks with
        | cons hlink hrest =>
            obtain ⟨rfl, hv⟩ := hlink
            exact ⟨_, _, ih.mpr ⟨c₀, _, hbase, hrest, rfl⟩, hv, rfl⟩
  | cap side t v ih =>
      rw [eval_cap_eq_ok_iff]
      constructor
      · rintro ⟨c₁, hc₁, rfl⟩
        obtain ⟨c₀, bounds, hbase, hlinks, rfl⟩ := ih.mp hc₁
        exact ⟨c₀, (side, v) :: bounds, hbase, .cons rfl hlinks, rfl⟩
      · rintro ⟨c₀, bounds, hbase, hlinks, rfl⟩
        cases hlinks with
        | cons hlink hrest =>
            cases hlink
            exact ⟨_, ih.mpr ⟨c₀, _, hbase, hrest, rfl⟩, rfl⟩

end Order

section Points

variable {value : ε → Outcome (Expr Rat)} {t t' : ConstraintTree Rat ε} {c : Constraint Rat}

theorem eval_of_perm (hbase : t'.base = t.base) (hlinks : t'.links.Perm t.links)
    (h : t.eval value = .ok c) : t'.eval value = .ok c := by
  obtain ⟨c₀, bounds, hc₀, hbounds, rfl⟩ := eval_eq_ok_iff.mp h
  obtain ⟨bounds', hbounds', hperm⟩ := List.perm_comp_forall₂ hlinks hbounds
  rw [eval_eq_ok_iff, hbase]
  refine ⟨c₀, bounds', hc₀, hbounds', ?_⟩
  apply hperm.foldr_eq'
  intro p _ q _ c
  exact c.cap_comm p.2 q.2 p.1 q.1

/-! ### Points -/

/-- What a written constraint evaluates to constrains its subject, and holds where its base holds
and the subject respects every link. -/
theorem eval_means {number : ε → (Nat → Rat) → Rat}
    (hvalue : ∀ b ∈ t.operands, ∀ e, value b = .ok e → e.Means (number b))
    (h : t.eval value = .ok c) :
    c.expr.Means (fun x => t.subject value (number · x))
      ∧ ∀ x, c.Holds x ↔ t.BaseHolds (number · x)
        ∧ ∀ l ∈ t.links, l.Admits (number · x) (t.subject value (number · x)) := by
  induction t generalizing c with
  | compare r a b =>
      obtain ⟨hva, hvb⟩ := List.forall_mem_cons.mp hvalue
      obtain ⟨d, hd, hrest⟩ := Outcome.bind_eq_ok_iff.mp h
      obtain ⟨d', hd', hcompare⟩ := Outcome.bind_eq_ok_iff.mp hrest
      have hmixed : ¬(d.constant?.isSome ∧ d'.constant?.isSome) := by
        intro hconstants
        obtain ⟨fault, -, hrefused⟩ := Constraint.compare_of_constants r hconstants
        cases hcompare.symm.trans hrefused
      obtain ⟨c', hc', hmeans, hholds⟩ :=
        Constraint.compare_means (hva d hd) (List.forall_mem_singleton.mp hvb d' hd') r hmixed
      cases hcompare.symm.trans hc'
      simp only [subject, isConstant_of_eq hd, isConstant_of_eq hd']
      refine ⟨hmeans, fun x => (hholds x).trans ?_⟩
      simp [BaseHolds, links]
  | bounded r e v =>
      obtain ⟨d, hd, heq⟩ := Outcome.bind_eq_ok_iff.mp h
      cases heq
      have hmeans := hvalue e (List.mem_singleton.mpr rfl) d hd
      refine ⟨?_, fun x => (Constraint.bounded_holds_iff hmeans v r x).trans ?_⟩
      · rw [Constraint.expr_bounded]
        exact hmeans
      · simp [BaseHolds, links]
  | ranged e lower upper =>
      obtain ⟨d, hd, heq⟩ := Outcome.bind_eq_ok_iff.mp h
      cases heq
      have hmeans := hvalue e (List.mem_singleton.mpr rfl) d hd
      refine ⟨hmeans, fun x => (Constraint.ranged_holds_iff hmeans lower upper x).trans ?_⟩
      simp [BaseHolds, links]
  | chain side t b ih =>
      obtain ⟨hb, ht⟩ := List.forall_mem_cons.mp hvalue
      obtain ⟨c₀, v, hc₀, hv, rfl⟩ := eval_chain_eq_ok_iff.mp h
      obtain ⟨hmeans, hholds⟩ := ih ht hc₀
      refine ⟨?_, fun x => (Constraint.holds_cap_iff_of hmeans (hholds x) v side).trans ?_⟩
      · rw [Constraint.expr_cap]
        exact hmeans
      · rw [links, List.forall_mem_cons, Link.Admits, (hb _ hv).const_value x]
        exact Iff.rfl
  | cap side t v ih =>
      obtain ⟨c₀, hc₀, rfl⟩ := eval_cap_eq_ok_iff.mp h
      obtain ⟨hmeans, hholds⟩ := ih hvalue hc₀
      refine ⟨?_, fun x => (Constraint.holds_cap_iff_of hmeans (hholds x) v side).trans ?_⟩
      · rw [Constraint.expr_cap]
        exact hmeans
      · rw [links, List.forall_mem_cons]
        exact Iff.rfl

/-! ### Failures -/

theorem operand_of_eval (h : t.eval value = .ok c) : ∀ b ∈ t.operands, ∃ e, value b = .ok e := by
  induction t generalizing c with
  | compare r a b =>
      obtain ⟨d, hd, hrest⟩ := Outcome.bind_eq_ok_iff.mp h
      obtain ⟨d', hd', -⟩ := Outcome.bind_eq_ok_iff.mp hrest
      exact List.forall_mem_cons.mpr ⟨⟨d, hd⟩, List.forall_mem_singleton.mpr ⟨d', hd'⟩⟩
  | bounded r e v =>
      obtain ⟨d, hd, -⟩ := Outcome.bind_eq_ok_iff.mp h
      exact List.forall_mem_singleton.mpr ⟨d, hd⟩
  | ranged e lower upper =>
      obtain ⟨d, hd, -⟩ := Outcome.bind_eq_ok_iff.mp h
      exact List.forall_mem_singleton.mpr ⟨d, hd⟩
  | chain side t b ih =>
      obtain ⟨c₀, v, hc₀, hv, -⟩ := eval_chain_eq_ok_iff.mp h
      exact List.forall_mem_cons.mpr ⟨⟨_, hv⟩, ih hc₀⟩
  | cap side t v ih =>
      obtain ⟨c₀, hc₀, -⟩ := eval_cap_eq_ok_iff.mp h
      exact ih hc₀

theorem eval_cases (hvalue : ∀ b ∈ t.operands, ∃ e f, value b = .ok e ∧ e.Means f) :
    t.Unsupported value ∧ (t.eval value).RefusedAs .unsupported
      ∨ ¬t.Unsupported value ∧ ∃ c, t.eval value = .ok c := by
  induction t with
  | compare r a b =>
      obtain ⟨⟨d, f, hd, hf⟩, hright⟩ := List.forall_mem_cons.mp hvalue
      obtain ⟨d', g, hd', hg⟩ := List.forall_mem_singleton.mp hright
      simp only [Unsupported, eval, hd, hd', isConstant_of_eq hd, isConstant_of_eq hd',
        Outcome.ok_bind]
      by_cases hconstants : d.constant?.isSome ∧ d'.constant?.isSome
      · exact .inl ⟨hconstants, Constraint.compare_of_constants r hconstants⟩
      · obtain ⟨c, hc, -⟩ := Constraint.compare_means hf hg r hconstants
        exact .inr ⟨hconstants, c, hc⟩
  | bounded r e v =>
      obtain ⟨d, f, hd, -⟩ := hvalue e (List.mem_singleton.mpr rfl)
      exact .inr ⟨id, _, Outcome.bind_eq_ok_iff.mpr ⟨d, hd, rfl⟩⟩
  | ranged e lower upper =>
      obtain ⟨d, f, hd, -⟩ := hvalue e (List.mem_singleton.mpr rfl)
      exact .inr ⟨id, _, Outcome.bind_eq_ok_iff.mpr ⟨d, hd, rfl⟩⟩
  | chain side t b ih =>
      obtain ⟨⟨d, f, hd, -⟩, ht⟩ := List.forall_mem_cons.mp hvalue
      rcases ih ht with ⟨hunsupported, hrefused⟩ | ⟨hsupported, c, hc⟩
      · exact .inl ⟨.inl hunsupported, hrefused.bind _⟩
      · by_cases hconstant : d.constant?.isSome
        · obtain ⟨v, rfl⟩ := Expr.exists_eq_const hconstant
          refine .inr ⟨?_, _, eval_chain_eq_ok_iff.mpr ⟨c, v, hc, hd, rfl⟩⟩
          rintro (hunsupported | hvariable)
          · exact hsupported hunsupported
          · rw [isConstant_of_eq hd] at hvariable
            exact hvariable rfl
        · refine .inl ⟨.inr (by rwa [isConstant_of_eq hd]), ?_⟩
          rw [eval, hc, Outcome.ok_bind, hd, Outcome.ok_bind]
          exact Constraint.chain_of_not_constant c side hconstant
  | cap side t v ih =>
      rcases ih hvalue with ⟨hunsupported, hrefused⟩ | ⟨hsupported, c, hc⟩
      · exact .inl ⟨hunsupported, hrefused.bind _⟩
      · exact .inr ⟨hsupported, _, eval_cap_eq_ok_iff.mpr ⟨c, hc, rfl⟩⟩

theorem exists_failure_iff
    (hvalue : ∀ b ∈ t.operands, ∀ e, value b = .ok e → ∃ f, e.Means f) :
    (∃ failure, t.eval value = .error failure)
      ↔ (∃ b ∈ t.operands, ∃ failure, value b = .error failure) ∨ t.Unsupported value := by
  by_cases hall : ∀ b ∈ t.operands, ∃ e, value b = .ok e
  · have hmeans : ∀ b ∈ t.operands, ∃ e f, value b = .ok e ∧ e.Means f := by
      intro b hb
      obtain ⟨e, he⟩ := hall b hb
      obtain ⟨f, hf⟩ := hvalue b hb e he
      exact ⟨e, f, he, hf⟩
    have hnone : ¬∃ b ∈ t.operands, ∃ failure, value b = .error failure := by
      rintro ⟨b, hb, failure, hfailure⟩
      obtain ⟨e, he⟩ := hall b hb
      cases hfailure.symm.trans he
    rcases eval_cases hmeans with ⟨hunsupported, fault, -, hrefused⟩ | ⟨hsupported, c, hc⟩
    · exact iff_of_true ⟨_, hrefused⟩ (.inr hunsupported)
    · refine iff_of_false ?_ (not_or.mpr ⟨hnone, hsupported⟩)
      rw [Outcome.exists_error_iff]
      exact fun h => h c hc
  · have hsome : ∃ b ∈ t.operands, ∃ failure, value b = .error failure := by
      simpa only [not_forall, Outcome.exists_error_iff, not_exists, exists_prop] using hall
    refine iff_of_true ?_ (.inl hsome)
    rw [Outcome.exists_error_iff]
    exact fun c hc => hall (operand_of_eval hc)

end Points

/-- A written constraint over trees fails just if an operand fails or it is not supported, and is
refused as such if no operand fails. If it evaluates, the result constrains the subject, holds
where the base holds and the subject respects every link, and is the same for the links in any
order. -/
theorem constraint_of_tree {value : α → Outcome (Expr Rat)} {t : ConstraintTree Rat (Tree Rat α)}
    (ht : ∀ b ∈ t.operands, b.Filed value) :
    ((∃ failure, t.eval (Tree.eval value) = .error failure)
        ↔ (∃ b ∈ t.operands, ∃ failure, b.eval value = .error failure)
          ∨ t.Unsupported (Tree.eval value))
      ∧ ((∀ b ∈ t.operands, ∃ e, b.eval value = .ok e) → t.Unsupported (Tree.eval value) →
          (t.eval (Tree.eval value)).RefusedAs .unsupported)
      ∧ ∀ c, t.eval (Tree.eval value) = .ok c →
          (∀ x, c.expr.raw.valueAt x = t.subject (Tree.eval value) (·.valueAt value x))
          ∧ (∀ x, c.Holds x ↔ t.BaseHolds (·.valueAt value x)
              ∧ ∀ l ∈ t.links, l.Admits (·.valueAt value x)
                (t.subject (Tree.eval value) (·.valueAt value x)))
          ∧ ∀ t' : ConstraintTree Rat (Tree Rat α), t'.base = t.base → t'.links.Perm t.links →
              t'.eval (Tree.eval value) = .ok c := by
  have hmeans : ∀ b ∈ t.operands, ∀ e, b.eval value = .ok e → e.Means (b.valueAt value) :=
    fun b hb e he => Tree.eval_means (ht b hb) he
  refine ⟨exists_failure_iff fun b hb e he => ⟨_, hmeans b hb e he⟩, ?_, ?_⟩
  · intro hall hunsupported
    have hoperands : ∀ b ∈ t.operands, ∃ e f, b.eval value = .ok e ∧ e.Means f := by
      intro b hb
      obtain ⟨e, he⟩ := hall b hb
      exact ⟨e, _, he, hmeans b hb e he⟩
    rcases eval_cases hoperands with ⟨-, hrefused⟩ | ⟨hsupported, -⟩
    · exact hrefused
    · exact absurd hunsupported hsupported
  · intro c hc
    obtain ⟨hexpr, hholds⟩ := eval_means hmeans hc
    exact ⟨hexpr.value, hholds, fun t' hbase hlinks => eval_of_perm hbase hlinks hc⟩

def window : ConstraintTree Rat (Tree Rat (Expr Rat)) :=
  .cap .lower
    (.chain .upper (.compare .atMost (.leaf (.const 3)) (.leaf (.var ⟨2, 2⟩))) (.leaf (.const 10)))
    5

theorem constraint_of_window :
    (∀ b ∈ window.operands, b.Filed .ok)
      ∧ ∃ c, window.eval (Tree.eval .ok) = .ok c
        ∧ ∀ x, c.Holds x ↔ 3 ≤ x 4 ∧ 5 ≤ x 4 ∧ x 4 ≤ 10 := by
  have hoperands : ∀ b ∈ window.operands, b.Filed .ok := by
    intro b hb a ha e he
    cases he
    simp only [window, operands, List.mem_cons, List.not_mem_nil, or_false] at hb
    rcases hb with rfl | rfl | rfl
    · cases List.mem_singleton.mp ha
      trivial
    · cases List.mem_singleton.mp ha
      trivial
    · cases List.mem_singleton.mp ha
      exact (by decide : 2 + 2 < Word.limit)
  obtain ⟨-, -, hpoints⟩ := constraint_of_tree hoperands
  obtain ⟨-, hholds, -⟩ := hpoints _ rfl
  refine ⟨hoperands, _, rfl, fun x => (hholds x).trans ?_⟩
  have hconst (v : Rat) : Tree.valueAt .ok (.leaf (.const v)) x = v := add_zero v
  have hvar : Tree.valueAt .ok (.leaf (.var ⟨2, 2⟩)) x = x 4 := by
    change 0 + (1 * x 4 + 0) = x 4
    ring
  have hsubject : window.subject (Tree.eval .ok) (·.valueAt .ok x) = x 4 := hvar
  have hbase : window.BaseHolds (·.valueAt .ok x) ↔ 3 ≤ x 4 := by
    simp only [window, BaseHolds, Comparison.Holds, hconst, hvar]
  have hlinks : (∀ l ∈ window.links, l.Admits (·.valueAt .ok x) (x 4)) ↔ 5 ≤ x 4 ∧ x 4 ≤ 10 := by
    simp [window, links, Link.Admits, Side.Admits, hconst]
  rw [hsubject, hbase, hlinks]

end ConstraintTree

end LinearProgram
