import LinearProgram.Expr.Basic
import Mathlib.Algebra.Order.Ring.Rat
import Mathlib.Algebra.Field.Rat
import Mathlib.Data.List.Sort
import Mathlib.Tactic.Ring

/-!
Linear forms as affine functions on exact rationals, which have no infinities and no rounding, so
that the laws of arithmetic hold. A point gives every column a number, and a form has a value at
every point. In canonical form its columns increase and none of them counts for nothing; two forms
in canonical form that have the same values are the same.
-/

namespace LinearProgram

instance : Scalar Rat where
  decLt := inferInstance
  decLe := inferInstance
  ofInt := Rat.ofInt
  isWhole := Rat.isInt
  text q := if q.den = 1 then toString q.num else s!"{q.num}/{q.den}"

namespace LinearForm

/-- What entries add up to at a point. -/
def dot (x : Nat → Rat) : List (Nat × Rat) → Rat
  | [] => 0
  | (j, c) :: rest => c * x j + dot x rest

def valueAt (f : LinearForm Rat) (x : Nat → Rat) : Rat := f.constant + dot x f.entries

structure Canonical (f : LinearForm Rat) : Prop where
  ascending : f.entries.Pairwise (·.1 < ·.1)
  nonzero : ∀ p ∈ f.entries, p.2 ≠ 0

/-- The point that is one in column `j` and zero in every other. -/
def unit (j : Nat) : Nat → Rat := fun k => if k = j then 1 else 0

variable {x y : Nat → Rat} {entries : List (Nat × Rat)} {j : Nat} {c : Rat}

theorem dot_congr (h : ∀ p ∈ entries, x p.1 = y p.1) : dot x entries = dot y entries := by
  induction entries with
  | nil => rfl
  | cons p rest ih =>
      obtain ⟨hp, hrest⟩ := List.forall_mem_cons.mp h
      rw [dot, dot, hp, ih hrest]

theorem dot_zero (entries : List (Nat × Rat)) : dot (fun _ => 0) entries = 0 := by
  induction entries with
  | nil => rfl
  | cons p rest ih => rw [dot, ih, mul_zero, add_zero]

theorem dot_map_mul (x : Nat → Rat) (k : Rat) (entries : List (Nat × Rat)) :
    dot x (entries.map fun p => (p.1, p.2 * k)) = k * dot x entries := by
  induction entries with
  | nil => rw [List.map_nil, dot, mul_zero]
  | cons p rest ih =>
      rw [List.map_cons, dot, ih, dot]
      ring

theorem dot_filter_ne_zero (x : Nat → Rat) (entries : List (Nat × Rat)) :
    dot x (entries.filter fun p => !(p.2 == 0)) = dot x entries := by
  induction entries with
  | nil => rfl
  | cons p rest ih =>
      by_cases hp : p.2 = 0
      · rw [List.filter_cons_of_neg (by simp [hp]), ih, dot, hp, zero_mul, zero_add]
      · rw [List.filter_cons_of_pos (by simp [hp]), dot, dot, ih]

theorem dot_unit_of_not_mem (h : ∀ p ∈ entries, p.1 ≠ j) : dot (unit j) entries = 0 := by
  have hzero : ∀ p ∈ entries, unit j p.1 = 0 := fun p hp => if_neg (h p hp)
  rw [dot_congr (y := fun _ => 0) hzero, dot_zero]

theorem dot_unit_of_mem (hascending : entries.Pairwise (·.1 < ·.1)) (h : (j, c) ∈ entries) :
    dot (unit j) entries = c := by
  induction entries with
  | nil => cases h
  | cons p rest ih =>
      obtain ⟨hfirst, hrest⟩ := List.pairwise_cons.mp hascending
      rw [dot]
      rcases List.mem_cons.mp h with rfl | h
      · have hothers : dot (unit j) rest = 0 := by
          apply dot_unit_of_not_mem
          intro q hq
          exact (hfirst q hq).ne'
        rw [hothers, unit, if_pos rfl, mul_one, add_zero]
      · have hne : p.1 ≠ j := (hfirst _ h).ne
        rw [ih hrest h, unit, if_neg hne, mul_zero, zero_add]

namespace Canonical

variable {f g : LinearForm Rat}

/-- The entries of a form in canonical form can be read off its values. -/
theorem mem_iff (h : f.Canonical) :
    (j, c) ∈ f.entries ↔ c ≠ 0 ∧ f.valueAt (unit j) - f.valueAt (fun _ => 0) = c := by
  have hdifference : f.valueAt (unit j) - f.valueAt (fun _ => 0) = dot (unit j) f.entries := by
    rw [valueAt, valueAt, dot_zero]
    ring
  rw [hdifference]
  -- backwards, an entry of that column would have that coefficient, and without one it is zero
  constructor
  · intro hmem
    exact ⟨h.nonzero _ hmem, dot_unit_of_mem h.ascending hmem⟩
  · rintro ⟨hc, hdot⟩
    by_contra hmem
    by_cases hcolumn : ∃ p ∈ f.entries, p.1 = j
    · obtain ⟨⟨k, d⟩, hp, rfl⟩ := hcolumn
      rw [dot_unit_of_mem h.ascending hp] at hdot
      rw [hdot] at hp
      exact hmem hp
    · have hothers : ∀ p ∈ f.entries, p.1 ≠ j := by
        intro p hp heq
        exact hcolumn ⟨p, hp, heq⟩
      rw [dot_unit_of_not_mem hothers] at hdot
      exact hc hdot.symm

/-- A function has at most one canonical form. -/
theorem unique (hf : f.Canonical) (hg : g.Canonical) (h : ∀ x, f.valueAt x = g.valueAt x) :
    f = g := by
  have hconstant : f.constant = g.constant := by
    have hzero := h fun _ => 0
    rwa [valueAt, valueAt, dot_zero, dot_zero, add_zero, add_zero] at hzero
  have hmem : ∀ p, p ∈ f.entries ↔ p ∈ g.entries := by
    rintro ⟨j, c⟩
    rw [hf.mem_iff, hg.mem_iff, h, h]
  have hantisymm : Std.Antisymm fun p q : Nat × Rat => p.1 < q.1 :=
    ⟨fun p q hpq hqp => absurd hpq hqp.asymm⟩
  have hirrefl : Std.Irrefl fun p q : Nat × Rat => p.1 < q.1 := ⟨fun p => lt_irrefl p.1⟩
  have hentries : f.entries = g.entries := hf.ascending.eq_of_mem_iff hg.ascending hmem
  cases f
  cases g
  cases hconstant
  cases hentries
  rfl

end Canonical

end LinearForm

end LinearProgram
