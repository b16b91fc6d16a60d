import LinearProgram.Word
import LinearProgram.Keyed
import LinearProgram.Scalar

/-!
Linear expressions and what they denote: entries by column plus a constant.
-/

namespace LinearProgram

/-- One decision variable: where the columns of its family start, and its place among them. -/
structure Variable where
  start : Nat
  offset : Nat
  deriving DecidableEq

def Variable.column (x : Variable) : Outcome Nat := Word.add x.start x.offset

structure Term (κ : Type) where
  ref : Variable
  coefficient : κ

/-- Terms filed under their columns, in increasing order, and a constant. -/
structure LinearSum (κ : Type) where
  terms : List (Nat × Term κ)
  constant : κ

inductive Expr (κ : Type)
  | const (v : κ)
  | var (x : Variable)
  | term (t : Term κ)
  | sum (s : LinearSum κ)

/-- An affine function of the columns. -/
structure LinearForm (κ : Type) where
  entries : List (Nat × κ)
  constant : κ

variable {κ : Type} [Scalar κ]

namespace Term

def same (s t : Term κ) : Bool := s.ref = t.ref ∧ s.coefficient == t.coefficient

/-- The term's contribution at a point, none if the point has no such column. -/
def value (t : Term κ) (point : List κ) : Outcome (Option κ) := do
  let j ← t.ref.column
  return (point[j]?).map (t.coefficient * ·)

end Term

namespace LinearSum

def ofConstant (v : κ) : LinearSum κ := ⟨[], v⟩

def zero : LinearSum κ := ofConstant 0

def coefficient? (s : LinearSum κ) (column : Nat) : Option κ :=
  (Keyed.find? column s.terms).map Term.coefficient

def same (s t : LinearSum κ) : Bool :=
  s.terms.length = t.terms.length
    ∧ (s.terms.zip t.terms).all (fun (a, b) => a.1 = b.1 ∧ a.2.same b.2)
    ∧ s.constant == t.constant

/-- The constant plus each term's contribution, term by term. -/
def evaluate (s : LinearSum κ) (point : List κ) : Outcome (Option κ) :=
  go s.constant s.terms
where
  go (acc : κ) : List (Nat × Term κ) → Outcome (Option κ)
    | [] => .ok (some acc)
    | (_, t) :: rest => do
      match ← t.value point with
      | none => return none
      | some c => go (acc + c) rest

end LinearSum

namespace Expr

def form : Expr κ → Form
  | const _ => .constant
  | var _ => .single
  | term _ => .term
  | sum _ => .sum

def constant? : Expr κ → Option κ
  | const v => some v
  | _ => none

def same : Expr κ → Expr κ → Bool
  | const a, const b => a == b
  | var x, var y => x = y
  | term s, term t => s.same t
  | sum s, sum t => s.same t
  | _, _ => false

/-- Entries as the expression holds them, and its constant. -/
def rawForm : Expr κ → Outcome (LinearForm κ)
  | const v => .ok ⟨[], v⟩
  | var x => return ⟨[(← x.column, 1)], 0⟩
  | term t => return ⟨[(← t.ref.column, t.coefficient)], 0⟩
  | sum s =>
    return ⟨← s.terms.mapM fun (_, t) => return (← t.ref.column, t.coefficient), s.constant⟩

/-- The affine function of an expression; entries that have cancelled are left out. -/
def linearForm (e : Expr κ) : Outcome (LinearForm κ) := do
  let f ← e.rawForm
  return { f with entries := f.entries.filter fun (_, c) => !(c == 0) }

/-- The value at a point, none if the expression has a column beyond it. -/
def evaluate (e : Expr κ) (point : List κ) : Outcome (Option κ) :=
  match e with
  | const v => .ok (some v)
  | var x => return point[← x.column]?
  | term t => t.value point
  | sum s => s.evaluate point

end Expr

def LinearForm.same (f g : LinearForm κ) : Bool :=
  f.entries.length = g.entries.length
    ∧ (f.entries.zip g.entries).all (fun (a, b) => a.1 = b.1 ∧ a.2 == b.2)
    ∧ f.constant == g.constant

end LinearProgram
