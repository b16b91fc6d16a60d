import LinearProgram.Constraint.Tree
import LinearProgram.Formula.Index

/-!
Formulas: expressions and constraints written with named indices over the families and parameters
of a session.
-/

namespace LinearProgram

inductive Formula (κ : Type)
  | given (e : Expr κ)
  | element (f : FamilyRef) (is : List IndexTerm)
  | labelled (f : FamilyRef) (labels : List String)
  | datum (p : ParameterRef) (is : List IndexTerm)
  | position (i : IndexTerm)
  | ordinal (i : IndexTerm)
  | integer (i : IndexTerm)
  | add (a b : Formula κ)
  | sub (a b : Formula κ)
  | mul (a b : Formula κ)
  | div (a b : Formula κ)
  | neg (a : Formula κ)
  | scale (k : κ) (a : Formula κ)
  | toSum (a : Formula κ)
  | total (as : List (Formula κ))
  | sum (space : Space) (names : List String) (body : Formula κ)

variable {κ : Type} [Scalar κ]

namespace Formula

/-- A variable of a family at written indices. -/
def elementAt (s : Scope κ) (f : FamilyRef) (is : List IndexTerm) : Outcome (Expr κ) := do
  let (catalog, family) ← s.session.family f
  family.exprAt catalog (← IndexTerm.evalAll s family.space is)

def labelledAt (s : Scope κ) (f : FamilyRef) (labels : List String) : Outcome (Expr κ) := do
  let (catalog, family) ← s.session.family f
  family.exprAtLabels catalog labels

def datumAt (s : Scope κ) (p : ParameterRef) (is : List IndexTerm) : Outcome (Expr κ) := do
  let parameter ← s.session.parameter p
  let coords ← IndexTerm.evalAll s parameter.space is
  return .const (← s.session.read p coords)

def sumOver (s : Scope κ) (space : Space) (body : List Nat → Outcome (Expr κ)) :
    Outcome (Expr κ) := do
  (← s.session.model s.model).sumOver space body

mutual

/-- The expression that a formula stands for, with every reference looked up. -/
def instantiate (s : Scope κ) : Formula κ → Tree κ (Outcome (Expr κ))
  | given e => .leaf (.ok e)
  | element f is => .leaf (elementAt s f is)
  | labelled f labels => .leaf (labelledAt s f labels)
  | datum p is => .leaf (datumAt s p is)
  | position i => .leaf (return .const (Scalar.ofNat (← i.evalAlone s)))
  | ordinal i => .leaf do return .const (Scalar.ofNat (← LinearProgram.ordinal (← i.evalAlone s)))
  | integer i => .leaf (return .const (Scalar.ofInt (← i.integer s (i.ownDimension? s))))
  | add a b => .add (a.instantiate s) (b.instantiate s)
  | sub a b => .sub (a.instantiate s) (b.instantiate s)
  | mul a b => .mul (a.instantiate s) (b.instantiate s)
  | div a b => .div (a.instantiate s) (b.instantiate s)
  | neg a => .neg (a.instantiate s)
  | scale k a => .scale k (a.instantiate s)
  | toSum a => .toSum (a.instantiate s)
  | total as => .total (instantiateAll s as)
  | sum space names body =>
    .leaf (sumOver s space fun coords =>
      (instantiate (s.bind names space coords) body).eval id)

def instantiateAll (s : Scope κ) : List (Formula κ) → List (Tree κ (Outcome (Expr κ)))
  | [] => []
  | a :: as => instantiate s a :: instantiateAll s as

end

def eval (s : Scope κ) (f : Formula κ) : Outcome (Expr κ) := (f.instantiate s).eval id

/-- From the first formula on, each further one is added as soon as it is evaluated. -/
def accumulate (a : Formula κ) (bs : List (Formula κ)) : Formula κ := bs.foldl add a

/-- From the first formula on, each further one is subtracted as soon as it is evaluated. -/
def deplete (a : Formula κ) (bs : List (Formula κ)) : Formula κ := bs.foldl sub a

end Formula

/-- The constraint that a written constraint stands for. -/
def Scope.constraint (s : Scope κ) (c : ConstraintTree κ (Formula κ)) : Outcome (Constraint κ) :=
  c.eval (Formula.eval s)

/-- The constraint for an element, with its coordinates bound to names. -/
def Scope.constraintAt (s : Scope κ) (names : List String) (space : Space)
    (c : ConstraintTree κ (Formula κ)) (coords : List Nat) : Outcome (Constraint κ) :=
  (s.bind names space coords).constraint c

end LinearProgram
