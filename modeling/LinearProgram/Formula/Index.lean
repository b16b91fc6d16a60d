import LinearProgram.Session

/-!
Written indices, and the scope that gives their names a meaning.
-/

namespace LinearProgram

/-- An index written in a place of a known dimension. -/
inductive IndexTerm
  | name (x : String)
  | position (n : Nat)
  | previous (i : IndexTerm)
  | shift (k : Nat) (i : IndexTerm)
  | inDimension (d : Dimension) (n : Nat)
  | convert (i : IndexTerm)
  | ofValue (v : Int)
  | member (v : Int)
  | label (l : String)

/-- What the names in a formula stand for: the model at hand, and the bound indices, the one bound
last first. -/
structure Scope (κ : Type) where
  session : Session κ
  model : Nat
  bound : List (String × Dimension × Nat)

variable {κ : Type} [Scalar κ]

namespace Scope

def catalog (s : Scope κ) : Outcome Catalog := return (← s.session.model s.model).catalog

def bind (names : List String) (space : Space) (coords : List Nat) (s : Scope κ) : Scope κ :=
  { s with bound := (names.zip (space.zip coords)).reverse ++ s.bound }

end Scope

namespace IndexTerm

/-- The dimension that an index has of its own, whatever its place. -/
def ownDimension? (s : Scope κ) : IndexTerm → Option Dimension
  | name x => (Keyed.find? x s.bound).map Prod.fst
  | previous i => i.ownDimension? s
  | shift _ i => i.ownDimension? s
  | inDimension d _ => some d
  | _ => none

/-- The position that an index denotes in a place of dimension `d`, if the place has one. -/
def eval (s : Scope κ) (d? : Option Dimension) (i : IndexTerm) : Outcome Nat :=
  let place : Outcome Dimension := match d? with
    | some d => .ok d
    | none => .refuse .untypedIndex
  match i with
  | name x =>
    match Keyed.find? x s.bound with
    | some (_, n) => .ok n
    | none => .refuse (.unboundName x)
  | position n => .ok n
  | previous i => do
    let n ← i.eval s d?
    (← place).previous n
  | shift k i => do Word.add (← i.eval s d?) k
  | inDimension _ n => .ok n
  | convert i => do
    let own := i.ownDimension? s <|> d?
    let n ← i.eval s own
    match own with
    | some e => e.convert (← place) n
    | none => .refuse .untypedIndex
  | ofValue v => do (← place).ofValue v
  | member v => do (← s.catalog).member (← place) v
  | label l => do (← s.catalog).indexOf (← place) l

/-- An index on its own, in a place that has no dimension. -/
def evalAlone (s : Scope κ) (i : IndexTerm) : Outcome Nat := i.eval s (i.ownDimension? s)

def evalAll (s : Scope κ) (space : Space) (is : List IndexTerm) : Outcome (List Nat) :=
  (is.zipIdx).mapM fun (i, k) => i.eval s space[k]?

/-- The integer at an index of a range. -/
def integer (s : Scope κ) (d? : Option Dimension) (i : IndexTerm) : Outcome Int := do
  let n ← i.eval s d?
  match d? with
  | some d => d.value n
  | none => .refuse .untypedIndex

end IndexTerm

end LinearProgram
