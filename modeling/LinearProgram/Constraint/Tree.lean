import LinearProgram.Constraint.Basic
import LinearProgram.Expr.Tree

/-!
Written constraints over written expressions of type `ε`.
-/

namespace LinearProgram

inductive ConstraintTree (κ ε : Type)
  | compare (r : Comparison) (a b : ε)
  | chain (side : Side) (c : ConstraintTree κ ε) (b : ε)
  | cap (side : Side) (c : ConstraintTree κ ε) (v : κ)
  | bounded (r : Comparison) (e : ε) (v : κ)
  | ranged (e : ε) (lower upper : κ)

variable {κ ε : Type} [Scalar κ]

/-- Both sides are evaluated before they are compared, and a constraint before its next bound. -/
def ConstraintTree.eval (value : ε → Outcome (Expr κ)) :
    ConstraintTree κ ε → Outcome (Constraint κ)
  | compare r a b => do
    let a ← value a
    let b ← value b
    Constraint.compare r a b
  | chain side c b => do
    let c ← c.eval value
    let b ← value b
    c.chain side b
  | cap side c v => return (← c.eval value).cap v side
  | bounded r e v => return .bounded (← value e) v r
  | ranged e lower upper => return .ranged (← value e) lower upper

end LinearProgram
