import LinearProgram.Scalar

/-!
Bounds of a column or a row.
-/

namespace LinearProgram

inductive Interval (κ : Type)
  | free
  | atLeast (l : κ)
  | atMost (u : κ)
  | between (l u : κ)
  | fixed (v : κ)

namespace Interval

variable {κ : Type} [Scalar κ]

/-- A lower bound that is not below the upper one fixes the value at the lower bound. -/
def ofBounds : Option κ → Option κ → Interval κ
  | none, none => free
  | some l, none => atLeast l
  | none, some u => atMost u
  | some l, some u => if l < u then between l u else fixed l

def lower? : Interval κ → Option κ
  | atLeast l | between l _ | fixed l => some l
  | free | atMost _ => none

def upper? : Interval κ → Option κ
  | atMost u | between _ u | fixed u => some u
  | free | atLeast _ => none

/-- The lower end, where `bottom` stands below all numbers. -/
def lower (bottom : κ) (i : Interval κ) : κ := i.lower?.getD bottom

/-- The upper end, where `top` stands above all numbers. -/
def upper (top : κ) (i : Interval κ) : κ := i.upper?.getD top

end Interval

end LinearProgram
