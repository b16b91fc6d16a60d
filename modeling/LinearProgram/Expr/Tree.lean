import LinearProgram.Expr.Algebra

/-!
Written expressions, before they are worked out. Operands are evaluated from left to right and the
first failure is the failure of the whole.
-/

namespace LinearProgram

/-- An expression over leaves of type `α`. The operands of `total` are all evaluated before they
are added up. -/
inductive Tree (κ α : Type)
  | leaf (a : α)
  | add (a b : Tree κ α)
  | sub (a b : Tree κ α)
  | mul (a b : Tree κ α)
  | div (a b : Tree κ α)
  | neg (a : Tree κ α)
  | scale (k : κ) (a : Tree κ α)
  | toSum (a : Tree κ α)
  | total (as : List (Tree κ α))

variable {κ α : Type} [Scalar κ]

namespace Tree

mutual

def eval (value : α → Outcome (Expr κ)) : Tree κ α → Outcome (Expr κ)
  | leaf a => value a
  | add a b => do
    let a ← a.eval value
    let b ← b.eval value
    a.add b
  | sub a b => do
    let a ← a.eval value
    let b ← b.eval value
    a.sub b
  | mul a b => do
    let a ← a.eval value
    let b ← b.eval value
    a.mul b
  | div a b => do
    let a ← a.eval value
    let b ← b.eval value
    a.div b
  | neg a => return (← a.eval value).neg
  | scale k a => return (← a.eval value).scale k
  | toSum a => do return .sum (← (← a.eval value).toSum)
  | total as => do Expr.total (← evalAll value as)

def evalAll (value : α → Outcome (Expr κ)) : List (Tree κ α) → Outcome (List (Expr κ))
  | [] => .ok []
  | a :: as => do
    let e ← a.eval value
    return e :: (← evalAll value as)

end

end Tree

end LinearProgram
