import LinearProgram.Expr.Algebra

/-!
Linear constraints: an expression with an optional lower and an optional upper bound.
-/

namespace LinearProgram

structure Constraint (κ : Type) where
  expr : Expr κ
  lower : Option κ
  upper : Option κ

/-- The side on which a bound stands. -/
inductive Side
  | lower
  | upper
  deriving DecidableEq

inductive Comparison
  | atMost
  | atLeast
  | equal
  deriving DecidableEq

def Comparison.sign : Comparison → String
  | .atMost => "<="
  | .atLeast => ">="
  | .equal => "=="

/-- The comparison with its sides exchanged. -/
def Comparison.flip : Comparison → Comparison
  | .atMost => .atLeast
  | .atLeast => .atMost
  | .equal => .equal

variable {κ : Type} [Scalar κ]

namespace Constraint

/-- The constraint that compares an expression with a number. -/
def bounded (e : Expr κ) (v : κ) : Comparison → Constraint κ
  | .atMost => ⟨e, none, some v⟩
  | .atLeast => ⟨e, some v, none⟩
  | .equal => ⟨e, some v, some v⟩

def ranged (e : Expr κ) (lower upper : κ) : Constraint κ := ⟨e, some lower, some upper⟩

/-- Intersects with `expr <= v`. -/
def capAbove (v : κ) (c : Constraint κ) : Constraint κ :=
  { c with upper := some (c.upper.elim v (Scalar.least · v)) }

/-- Intersects with `v <= expr`. -/
def capBelow (v : κ) (c : Constraint κ) : Constraint κ :=
  { c with lower := some (c.lower.elim v (Scalar.greatest · v)) }

def cap (c : Constraint κ) (v : κ) : Side → Constraint κ
  | .upper => c.capAbove v
  | .lower => c.capBelow v

/-- The constraint `a ⋈ b`. A constant side becomes the bound; two constants are refused; if
neither side is constant their difference is compared with zero. -/
def compare (r : Comparison) : Expr κ → Expr κ → Outcome (Constraint κ)
  | .const a, .const b =>
    .refuse (.constantComparison (Scalar.text a) r.sign (Scalar.text b))
  | e, .const v => .ok (bounded e v r)
  | .const v, e => .ok (bounded e v r.flip)
  | a, b => return bounded (← a.sub b) 0 r

/-- A constraint compared once more, with a constant. -/
def chain (side : Side) (c : Constraint κ) : Expr κ → Outcome (Constraint κ)
  | .const v => .ok (c.cap v side)
  | _ => .refuse .chainedExpression

end Constraint

end LinearProgram
