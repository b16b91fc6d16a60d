import LinearProgram.Expr.Basic

/-!
Arithmetic that stays linear. Sums collect the coefficients of each column in the order in which
they arrive; a product needs a constant factor and a quotient a constant divisor.
-/

namespace LinearProgram

variable {κ : Type} [Scalar κ]

namespace LinearSum

/-- Adds to the coefficient in column `j`. A column met first starts from zero and keeps `x` as the
variable it is filed for. -/
def insert (j : Nat) (x : Variable) (c : κ) : List (Nat × Term κ) → List (Nat × Term κ)
  | [] => [(j, ⟨x, 0 + c⟩)]
  | (k, t) :: rest =>
    if j < k then (j, ⟨x, 0 + c⟩) :: (k, t) :: rest
    else if j = k then (k, { t with coefficient := t.coefficient + c }) :: rest
    else (k, t) :: insert j x c rest

def collect (s : LinearSum κ) (x : Variable) (c : κ) : Outcome (LinearSum κ) := do
  let j ← x.column
  return { s with terms := insert j x c s.terms }

def add (s : LinearSum κ) : Expr κ → Outcome (LinearSum κ)
  | .const v => .ok { s with constant := s.constant + v }
  | .var x => s.collect x 1
  | .term t => s.collect t.ref t.coefficient
  | .sum r => do
    let s ← r.terms.foldlM (fun s (_, t) => s.collect t.ref t.coefficient) s
    return { s with constant := s.constant + r.constant }

def subtract (s : LinearSum κ) : Expr κ → Outcome (LinearSum κ)
  | .const v => .ok { s with constant := s.constant - v }
  | .var x => s.collect x (-1)
  | .term t => s.collect t.ref (-t.coefficient)
  | .sum r => do
    let s ← r.terms.foldlM (fun s (_, t) => s.collect t.ref (-t.coefficient)) s
    return { s with constant := s.constant - r.constant }

def scale (k : κ) (s : LinearSum κ) : LinearSum κ :=
  { terms := s.terms.map fun (j, t) => (j, { t with coefficient := t.coefficient * k })
    constant := s.constant * k }

end LinearSum

namespace Expr

def toSum : Expr κ → Outcome (LinearSum κ)
  | const v => .ok (.ofConstant v)
  | var x => LinearSum.zero.collect x 1
  | term t => LinearSum.zero.collect t.ref t.coefficient
  | sum s => .ok s

/-- Constants add up to a constant; all else is collected in a sum, in the left one if both sides
are sums. -/
def add : Expr κ → Expr κ → Outcome (Expr κ)
  | const a, const b => .ok (const (a + b))
  | sum s, b => return sum (← s.add b)
  | a, sum s => return sum (← s.add a)
  | a, b => do return sum (← (← a.toSum).add b)

def sub : Expr κ → Expr κ → Outcome (Expr κ)
  | const a, const b => .ok (const (a - b))
  | a, b => do return sum (← (← a.toSum).subtract b)

def scale (k : κ) : Expr κ → Expr κ
  | const v => const (k * v)
  | var x => term ⟨x, k⟩
  | term t => term { t with coefficient := k * t.coefficient }
  | sum s => sum (s.scale k)

def neg (e : Expr κ) : Expr κ := e.scale (-1)

def mul : Expr κ → Expr κ → Outcome (Expr κ)
  | const a, const b => .ok (const (a * b))
  | const k, e => .ok (e.scale k)
  | e, const k => .ok (e.scale k)
  | a, b => .refuse (.product a.form b.form)

def div (a : Expr κ) : Expr κ → Outcome (Expr κ)
  | const k => if k == 0 then .refuse .divisionByZero else .ok (a.scale (1 / k))
  | b => .refuse (.quotient a.form b.form)

def total (es : List (Expr κ)) : Outcome (Expr κ) :=
  return sum (← es.foldlM LinearSum.add LinearSum.zero)

end Expr

end LinearProgram
