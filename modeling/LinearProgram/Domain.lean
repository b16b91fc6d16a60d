import LinearProgram.Fault
import LinearProgram.Scalar

/-!
Domains of parameters and variables: an optional bound on either side, which may differ from
element to element and read parameters, and integrality.
-/

namespace LinearProgram

/-- A parameter, by the model that declared it and its place there. -/
structure ParameterRef where
  model : Nat
  slot : Nat
  deriving DecidableEq

/-- How parameters are read. -/
abbrev Reader (κ : Type) := ParameterRef → List Nat → Outcome κ

/-- Where the bound of an element comes from: a closure that is called with the coordinates. It
reads the parameters that it holds, and no others, as they are at the time of the call. -/
structure BoundRule (κ : Type) where
  captured : List ParameterRef
  call : Reader κ → List Nat → Outcome κ
  locality : ∀ {read read' : Reader κ},
    (∀ p ∈ captured, read' p = read p) → call read' = call read

variable {κ : Type}

namespace BoundRule

/-- A closure that reads nothing but the coordinates. -/
def byIndex (f : List Nat → κ) : BoundRule κ where
  captured := []
  call _ coords := .ok (f coords)
  locality _ := rfl

def const (v : κ) : BoundRule κ := byIndex fun _ => v

/-- The value of a parameter over the same space. -/
def parameter (p : ParameterRef) : BoundRule κ where
  captured := [p]
  call read := read p
  locality h := h p List.mem_cons_self

/-- A closure that fails gives the request up. -/
def eval (read : Reader κ) (coords : List Nat) (r : BoundRule κ) : Outcome κ :=
  (r.call read coords).escalate

@[simp] theorem eval_parameter (read : Reader κ) (coords : List Nat) (p : ParameterRef) :
    (parameter p).eval read coords = (read p coords).escalate := rfl

end BoundRule

structure Bound (κ : Type) where
  rule : BoundRule κ
  strict : Bool

structure Domain (κ : Type) where
  lower : Option (Bound κ)
  upper : Option (Bound κ)
  integer : Bool

variable [Scalar κ]

/-- `c₀ + c₁·i₁ + c₂·i₂ + …` over the coordinates, added up from the left. -/
def affine : List κ → List Nat → κ
  | [], _ => 0
  | c :: cs, coords =>
    (cs.zip coords).foldl (fun acc (c, i) => acc + c * Scalar.ofNat i) c

def Bound.eval (read : Reader κ) (coords : List Nat) (b : Bound κ) : Outcome κ :=
  b.rule.eval read coords

namespace Domain

def free : Domain κ := ⟨none, none, false⟩

def above (r : BoundRule κ) : Domain κ := ⟨some ⟨r, true⟩, none, false⟩

def atLeast (r : BoundRule κ) : Domain κ := ⟨some ⟨r, false⟩, none, false⟩

def below (r : BoundRule κ) : Domain κ := ⟨none, some ⟨r, true⟩, false⟩

def atMost (r : BoundRule κ) : Domain κ := ⟨none, some ⟨r, false⟩, false⟩

/-- The lower bound of one domain and the upper bound of another, whichever has which. -/
def both (a b : Domain κ) : Domain κ := ⟨a.lower <|> b.lower, a.upper <|> b.upper, false⟩

def equalTo (r : BoundRule κ) : Domain κ := both (atLeast r) (atMost r)

def between (lower upper : BoundRule κ) : Domain κ := both (atLeast lower) (atMost upper)

def whole (d : Domain κ) : Domain κ := { d with integer := true }

def binary : Domain κ := (between (.const 0) (.const 1)).whole

/-- The bound on one side for an element, none if there is no bound. -/
def lowerAt (read : Reader κ) (coords : List Nat) (d : Domain κ) : Outcome (Option κ) :=
  d.lower.mapM (Bound.eval read coords)

def upperAt (read : Reader κ) (coords : List Nat) (d : Domain κ) : Outcome (Option κ) :=
  d.upper.mapM (Bound.eval read coords)

def describeSide (name strictSign closedSign : String) (b : Option (Bound κ)) : String :=
  name ++ "(" ++ b.elim "none" (fun b => if b.strict then strictSign else closedSign) ++ ")"

def describe (d : Domain κ) : String :=
  "Domain \x7b lower: " ++ describeSide "LowerBound" ">" ">=" d.lower
    ++ ", upper: " ++ describeSide "UpperBound" "<" "<=" d.upper
    ++ ", is_integer: " ++ toString d.integer ++ " \x7d"

end Domain

end LinearProgram
