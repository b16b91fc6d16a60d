import LinearProgram.Constraint.Basic
import LinearProgram.Proofs.Expr.Algebra

/-!
Constraints as sets of points. A comparison of two expressions becomes a constraint that holds at
the same points, on whichever side a constant stands, and each further bound cuts the set down to
the points that respect it. In which order bounds are added makes no difference.
-/

namespace LinearProgram

def Comparison.Holds (u v : Rat) : Comparison → Prop
  | .atMost => u ≤ v
  | .atLeast => v ≤ u
  | .equal => u = v

/-- The number `y` respects the bound `v` on the given side. -/
def Side.Admits (v y : Rat) : Side → Prop
  | .lower => v ≤ y
  | .upper => y ≤ v

theorem Comparison.flip_holds_iff (r : Comparison) (u v : Rat) :
    r.flip.Holds u v ↔ r.Holds v u := by
  cases r with
  | atMost => exact Iff.rfl
  | atLeast => exact Iff.rfl
  | equal => exact eq_comm

theorem Comparison.sub_holds_iff (r : Comparison) (u v : Rat) :
    r.Holds (u - v) 0 ↔ r.Holds u v := by
  cases r with
  | atMost => exact sub_nonpos
  | atLeast => exact sub_nonneg
  | equal => exact sub_eq_zero

theorem Scalar.least_eq_min (u v : Rat) : Scalar.least u v = min u v := by
  have hnumber : Scalar.isNumber v = true := beq_self_eq_true v
  rw [Scalar.least, if_pos hnumber]
  split
  · rename_i h
    exact (min_eq_left h.le).symm
  · rename_i h
    exact (min_eq_right (not_lt.mp h)).symm

theorem Scalar.greatest_eq_max (u v : Rat) : Scalar.greatest u v = max u v := by
  have hnumber : Scalar.isNumber v = true := beq_self_eq_true v
  rw [Scalar.greatest, if_pos hnumber]
  split
  · rename_i h
    exact (max_eq_left h.le).symm
  · rename_i h
    exact (max_eq_right (not_lt.mp h)).symm

theorem Expr.exists_eq_const {κ : Type} {e : Expr κ} (h : e.constant?.isSome) :
    ∃ v, e = const v := by
  cases e with
  | const v => exact ⟨v, rfl⟩
  | var x => cases h
  | term t => cases h
  | sum s => cases h

theorem Expr.isSome_constant?_eq_false {κ : Type} {e : Expr κ} (h : ∀ v, e = const v → False) :
    e.constant?.isSome = false := by
  cases e with
  | const v => exact (h v rfl).elim
  | var x => rfl
  | term t => rfl
  | sum s => rfl

namespace Constraint

/-- The bounds that are present hold at a point. -/
structure Holds (c : Constraint Rat) (x : Nat → Rat) : Prop where
  lower : ∀ v ∈ c.lower, v ≤ c.expr.raw.valueAt x
  upper : ∀ v ∈ c.upper, c.expr.raw.valueAt x ≤ v

variable {c : Constraint Rat} {e a b : Expr Rat} {f g : (Nat → Rat) → Rat} {x : Nat → Rat}

/-! ### Further bounds -/

@[simp]
theorem expr_cap (c : Constraint Rat) (v : Rat) (side : Side) : (c.cap v side).expr = c.expr := by
  cases side <;> rfl

theorem lower_capBelow (c : Constraint Rat) (v : Rat) :
    (c.capBelow v).lower = some (c.lower.elim v (max · v)) := by
  rw [capBelow]
  cases c.lower with
  | none => rfl
  | some l => exact congrArg some (Scalar.greatest_eq_max l v)

theorem upper_capAbove (c : Constraint Rat) (v : Rat) :
    (c.capAbove v).upper = some (c.upper.elim v (min · v)) := by
  rw [capAbove]
  cases c.upper with
  | none => rfl
  | some u => exact congrArg some (Scalar.least_eq_min u v)

theorem holds_cap_iff (c : Constraint Rat) (v : Rat) (side : Side) (x : Nat → Rat) :
    (c.cap v side).Holds x ↔ c.Holds x ∧ side.Admits v (c.expr.raw.valueAt x) := by
  cases side with
  | lower =>
      have hlower : (∀ w ∈ (c.capBelow v).lower, w ≤ c.expr.raw.valueAt x)
          ↔ (∀ w ∈ c.lower, w ≤ c.expr.raw.valueAt x) ∧ v ≤ c.expr.raw.valueAt x := by
        rw [lower_capBelow]
        cases c.lower <;> simp
      constructor
      · intro h
        obtain ⟨hbefore, hbound⟩ := hlower.mp h.lower
        exact ⟨⟨hbefore, h.upper⟩, hbound⟩
      · rintro ⟨h, hbound⟩
        exact ⟨hlower.mpr ⟨h.lower, hbound⟩, h.upper⟩
  | upper =>
      have hupper : (∀ w ∈ (c.capAbove v).upper, c.expr.raw.valueAt x ≤ w)
          ↔ (∀ w ∈ c.upper, c.expr.raw.valueAt x ≤ w) ∧ c.expr.raw.valueAt x ≤ v := by
        rw [upper_capAbove]
        cases c.upper <;> simp
      constructor
      · intro h
        obtain ⟨hbefore, hbound⟩ := hupper.mp h.upper
        exact ⟨⟨h.lower, hbefore⟩, hbound⟩
      · rintro ⟨h, hbound⟩
        exact ⟨h.lower, hupper.mpr ⟨h.upper, hbound⟩⟩

theorem capBelow_comm (c : Constraint Rat) (v w : Rat) :
    (c.capBelow v).capBelow w = (c.capBelow w).capBelow v := by
  have hlower : ((c.capBelow v).capBelow w).lower = ((c.capBelow w).capBelow v).lower := by
    rw [lower_capBelow, lower_capBelow, lower_capBelow, lower_capBelow]
    cases c.lower with
    | none => exact congrArg some (max_comm v w)
    | some l => exact congrArg some (max_right_comm l v w)
  exact congrArg (fun l => { c with lower := l }) hlower

theorem capAbove_comm (c : Constraint Rat) (v w : Rat) :
    (c.capAbove v).capAbove w = (c.capAbove w).capAbove v := by
  have hupper : ((c.capAbove v).capAbove w).upper = ((c.capAbove w).capAbove v).upper := by
    rw [upper_capAbove, upper_capAbove, upper_capAbove, upper_capAbove]
    cases c.upper with
    | none => exact congrArg some (min_comm v w)
    | some u => exact congrArg some (min_right_comm u v w)
  exact congrArg (fun u => { c with upper := u }) hupper

theorem holds_cap_iff_of {p q : Prop} (he : c.expr.Means f) (h : c.Holds x ↔ p ∧ q) (v : Rat)
    (side : Side) : (c.cap v side).Holds x ↔ p ∧ side.Admits v (f x) ∧ q := by
  rw [holds_cap_iff, h, he.value x, and_assoc, and_comm (a := q)]

theorem cap_comm (c : Constraint Rat) (v w : Rat) (side side' : Side) :
    (c.cap v side).cap w side' = (c.cap w side').cap v side := by
  cases side with
  | lower =>
      cases side' with
      | lower => exact c.capBelow_comm v w
      | upper => rfl
  | upper =>
      cases side' with
      | lower => rfl
      | upper => exact c.capAbove_comm v w

/-! ### Comparisons -/

@[simp]
theorem expr_bounded (e : Expr Rat) (v : Rat) (r : Comparison) : (bounded e v r).expr = e := by
  cases r <;> rfl

theorem bounded_holds_iff (he : e.Means f) (v : Rat) (r : Comparison) (x : Nat → Rat) :
    (bounded e v r).Holds x ↔ r.Holds (f x) v := by
  rw [← he.value x]
  constructor
  · intro h
    cases r with
    | atMost => exact h.upper v rfl
    | atLeast => exact h.lower v rfl
    | equal => exact le_antisymm (h.upper v rfl) (h.lower v rfl)
  · intro h
    cases r with
    | atMost => exact ⟨by rintro w ⟨⟩, by rintro w ⟨⟩; exact h⟩
    | atLeast => exact ⟨by rintro w ⟨⟩; exact h, by rintro w ⟨⟩⟩
    | equal => exact ⟨by rintro w ⟨⟩; exact h.ge, by rintro w ⟨⟩; exact h.le⟩

theorem ranged_holds_iff (he : e.Means f) (lower upper : Rat) (x : Nat → Rat) :
    (ranged e lower upper).Holds x ↔ lower ≤ f x ∧ f x ≤ upper := by
  rw [← he.value x]
  constructor
  · intro h
    exact ⟨h.lower lower rfl, h.upper upper rfl⟩
  · rintro ⟨hlower, hupper⟩
    exact ⟨by rintro w ⟨⟩; exact hlower, by rintro w ⟨⟩; exact hupper⟩

/-- What a comparison constrains: the side that is no constant, and the difference of the sides if
neither is one. -/
def compared (leftConstant rightConstant : Bool) (u v : Rat) : Rat :=
  if rightConstant then u else if leftConstant then v else u - v

theorem compare_of_constants (r : Comparison)
    (h : a.constant?.isSome ∧ b.constant?.isSome) : (compare r a b).RefusedAs .unsupported := by
  obtain ⟨v, rfl⟩ := Expr.exists_eq_const h.1
  obtain ⟨w, rfl⟩ := Expr.exists_eq_const h.2
  exact ⟨_, rfl, rfl⟩

theorem compare_means (ha : a.Means f) (hb : b.Means g) (r : Comparison)
    (h : ¬(a.constant?.isSome ∧ b.constant?.isSome)) :
    ∃ c, compare r a b = .ok c
      ∧ c.expr.Means (fun x => compared a.constant?.isSome b.constant?.isSome (f x) (g x))
      ∧ ∀ x, c.Holds x ↔ r.Holds (f x) (g x) := by
  unfold compare
  split
  · exact absurd ⟨rfl, rfl⟩ h
  · rename_i v _
    refine ⟨_, rfl, ?_, fun x => ?_⟩
    · rw [expr_bounded]
      exact ha
    · rw [hb.const_value x]
      exact bounded_holds_iff ha v r x
  · rename_i v _
    -- the constant stands on the left, so its bound is on the other side
    have hright : b.constant?.isSome = false := by
      cases hb : b.constant?.isSome with
      | false => rfl
      | true => exact absurd ⟨rfl, hb⟩ h
    refine ⟨_, rfl, ?_, fun x => ?_⟩
    · rw [expr_bounded, hright]
      exact hb
    · rw [ha.const_value x, ← r.flip_holds_iff]
      exact bounded_holds_iff hb v r.flip x
  · rename_i hleft hright _
    obtain ⟨d, hd, hmeans⟩ := ha.sub hb
    refine ⟨bounded d 0 r, ?_, ?_, fun x => ?_⟩
    · rw [hd]
      rfl
    · rw [expr_bounded, Expr.isSome_constant?_eq_false hleft, Expr.isSome_constant?_eq_false hright]
      exact hmeans
    · rw [← r.sub_holds_iff]
      exact bounded_holds_iff hmeans 0 r x

end Constraint

end LinearProgram
