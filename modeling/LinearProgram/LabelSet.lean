import LinearProgram.Fault

/-!
Ordered sets of distinct labels.
-/

namespace LinearProgram

structure LabelSet where
  name : String
  labels : List String
  deriving DecidableEq

namespace LabelSet

def size (s : LabelSet) : Nat := s.labels.length

/-- Appends a label; its offset is the number of labels before it. -/
def add (s : LabelSet) (l : String) : Outcome (Nat × LabelSet) :=
  if l ∈ s.labels then .refuse (.duplicateLabel l s.name)
  else .ok (s.size, { s with labels := s.labels ++ [l] })

def indexOf (s : LabelSet) (l : String) : Outcome Nat :=
  match s.labels.idxOf? l with
  | some k => .ok k
  | none => .refuse (.unknownLabel l s.name)

def label (s : LabelSet) (k : Nat) : Outcome String :=
  match s.labels[k]? with
  | some l => .ok l
  | none => .refuse (.outsideSet k s.name s.size)

end LabelSet

end LinearProgram
