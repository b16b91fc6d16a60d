/-!
Why a request is refused. A `Fault` names its cause; `Fault.message` is the one place where causes
get their wording. A `Failure` is either a fault, which the caller may inspect, or a trap, which
ends the request: overflow of machine arithmetic, or a fault that nobody was asked to handle.
-/

namespace LinearProgram

/-- The families of faults that callers tell apart. -/
inductive FaultKind
  | invalidIndex
  | nonlinear
  | unsupported
  | alreadySealed
  | notSealed
  | incompleteData
  | shapeMismatch
  | domainViolation
  | io
  | solver
  deriving DecidableEq

/-- The four forms a linear expression can have. -/
inductive Form
  | constant
  | single
  | term
  | sum
  deriving DecidableEq

def Form.phrase : Form → String
  | .constant => "a constant"
  | .single => "a variable"
  | .term => "a term"
  | .sum => "a sum"

/-- The parts of the flat layout that exist only once a model is sealed. -/
inductive View
  | owner
  | columns
  | rows
  | objective
  | solution
  deriving DecidableEq

def View.phrase : View → String
  | .owner => "column lookup"
  | .columns => "columns()"
  | .rows => "rows()"
  | .objective => "objective_row()"
  | .solution => "solve()"

/-- Causes of refusal. Numbers that belong to a model's scalar type come as text. -/
inductive Fault
  | beforeFirst (dim : String)
  | belowFirst (value lower : Int) (dim : String)
  | beyondLast (value : Int) (dim : String)
  | notARange (dim : String)
  | unboundName (name : String)
  | untypedIndex
  | duplicateLabel (label set : String)
  | unknownLabel (label set : String)
  | outsideSet (offset : Nat) (set : String) (size : Nat)
  | notAnInteger (label dim : String)
  | outsideRange (value : Int) (dim : String) (lower upper : Int)
  | outsideSpace (coords sizes : List Nat)
  | beyondSpace (offset size : Nat)
  | outsideParameter (coords : List Nat) (parameter : String)
  | unknownParameter (slot : Nat)
  | unknownFamily (slot : Nat)
  | unknownModel (slot : Nat)
  | outsideFamily (column : Nat) (family : String)
  | outsideModel (column count : Nat)
  | strayColumn (constraint : Option String) (column count : Nat)
  | familyBeyondSolution (family : String) (count : Nat)
  | expressionBeyondSolution
  | product (lhs rhs : Form)
  | quotient (lhs rhs : Form)
  | divisionByZero
  | constantComparison (lhs relation rhs : String)
  | chainedExpression
  | labelForRange (dim : String)
  | duplicateFamily (name : String)
  | lateLabel (label dim : String)
  | lateLimit (limit : String)
  | lateStore (parameter : String)
  | lateFamily (name : String)
  | familyPlaced (name : String)
  | sealedTwice
  | familyUnplaced (name : String)
  | familyWithoutColumns (name : String)
  | familyWithoutValues (name : String)
  | beforeSeal (view : View)
  | limitUnset (dim limit : String)
  | resized (parameter : String) (stored current : Nat)
  | outsideDomain (element value relation bound : String)
  | notWhole (element : Nat) (parameter value : String)
  | io (reason : String)
  | solver (reason : String)
  deriving DecidableEq

namespace Fault

def kind : Fault → FaultKind
  | beforeFirst _ | belowFirst .. | beyondLast .. | unboundName _ | untypedIndex
  | duplicateLabel .. | unknownLabel .. | outsideSet .. | notAnInteger .. | outsideRange ..
  | outsideSpace .. | beyondSpace .. | outsideParameter .. | unknownParameter _
  | unknownFamily _ | unknownModel _ | outsideFamily .. | outsideModel .. | strayColumn ..
  | familyBeyondSolution .. | expressionBeyondSolution => .invalidIndex
  | product .. | quotient .. => .nonlinear
  | divisionByZero | constantComparison .. | chainedExpression | labelForRange _
  | duplicateFamily _ | notARange _ => .unsupported
  | lateLabel .. | lateLimit _ | lateStore _ | lateFamily _ | familyPlaced _
  | sealedTwice => .alreadySealed
  | familyUnplaced _ | familyWithoutColumns _ | familyWithoutValues _
  | beforeSeal _ => .notSealed
  | limitUnset .. => .incompleteData
  | resized .. => .shapeMismatch
  | outsideDomain .. | notWhole .. => .domainViolation
  | io _ => .io
  | solver _ => .solver

/-- Coordinates as a bracketed list. -/
def listing (ns : List Nat) : String := "[" ++ ", ".intercalate (ns.map toString) ++ "]"

def detail : Fault → String
  | beforeFirst dim => s!"prev() of the first element of `{dim}`"
  | belowFirst value lower dim => s!"{value} is below the first element {lower} of `{dim}`"
  | beyondLast value dim => s!"{value} is beyond the last element of `{dim}`"
  | notARange dim => s!"`{dim}` is not an integer range"
  | unboundName name => s!"no index is called `{name}`"
  | untypedIndex => "the index belongs to no dimension"
  | duplicateLabel label set => s!"duplicate label `{label}` in `{set}`"
  | unknownLabel label set => s!"`{label}` is not a member of `{set}`"
  | outsideSet offset set size => s!"offset {offset} is outside `{set}` (size {size})"
  | notAnInteger label dim => s!"`{label}` is not an integer member of `{dim}`"
  | outsideRange value dim lower upper => s!"{value} is outside `{dim}` = {lower}..={upper}"
  | outsideSpace coords sizes =>
    s!"{listing coords} is outside the index space {listing sizes}"
  | beyondSpace offset size => s!"offset {offset} is outside an index space of size {size}"
  | outsideParameter coords parameter =>
    s!"{listing coords} is outside the index space of `{parameter}`"
  | unknownParameter slot => s!"there is no parameter {slot}"
  | unknownFamily slot => s!"there is no variable set {slot}"
  | unknownModel slot => s!"there is no model {slot}"
  | outsideFamily column family => s!"column {column} is not in variable set `{family}`"
  | outsideModel column count => s!"column {column} is outside the model ({count} columns)"
  | strayColumn (some constraint) column count =>
    s!"constraint `{constraint}` references column {column} but the model has {count} columns"
  | strayColumn none column count =>
    s!"objective references column {column} but the model has {count} columns"
  | familyBeyondSolution family count =>
    s!"variable set `{family}` is outside the solution ({count} values)"
  | expressionBeyondSolution => "expression references a column outside the solution"
  | product lhs rhs => s!"product of {lhs.phrase} and {rhs.phrase}"
  | quotient lhs rhs => s!"division of {lhs.phrase} by {rhs.phrase}"
  | divisionByZero => "division by zero"
  | constantComparison lhs relation rhs => s!"comparison of two constants ({lhs} {relation} {rhs})"
  | chainedExpression => "a constraint can only be compared with a constant"
  | labelForRange dim => s!"`{dim}` is an integer range, labels cannot be added"
  | duplicateFamily name => s!"duplicate variable set name `{name}`"
  | lateLabel label dim => s!"cannot add `{label}` to `{dim}`"
  | lateLimit limit => s!"cannot set `{limit}`"
  | lateStore parameter => s!"cannot add data to parameter `{parameter}`"
  | lateFamily name => s!"cannot add variable set `{name}`"
  | familyPlaced name => s!"variable set `{name}` already has columns"
  | sealedTwice => "seal_data() called twice"
  | familyUnplaced name => s!"variable set `{name}` used before seal_data()"
  | familyWithoutColumns name => s!"variable set `{name}` has no columns yet"
  | familyWithoutValues name => s!"variable set `{name}` has no columns"
  | beforeSeal view => view.phrase
  | limitUnset dim limit => s!"range `{dim}` needs a value for `{limit}`"
  | resized parameter stored current =>
    s!"`{parameter}`: storage has {stored} elements, index sets give {current}"
  | outsideDomain element value relation bound =>
    s!"{element} = {value} but must be {relation} {bound}"
  | notWhole element parameter value =>
    s!"element {element} of `{parameter}` = {value} is not integer"
  | io reason => reason
  | solver reason => reason

end Fault

def FaultKind.heading : FaultKind → String
  | .invalidIndex => "invalid index: "
  | .nonlinear => "nonlinear expression: "
  | .unsupported => "unsupported operation: "
  | .alreadySealed => "model is sealed: "
  | .notSealed => "model is not sealed: "
  | .incompleteData => "incomplete data: "
  | .shapeMismatch => "shape mismatch for "
  | .domainViolation => "domain violation: "
  | .io => "i/o error: "
  | .solver => "solver error: "

/-- What the user reads: the heading of the fault's kind, then the particulars. -/
def Fault.message (f : Fault) : String := f.kind.heading ++ f.detail

/-- Reasons to give up a request outright. -/
inductive Trap
  | addOverflow
  | subOverflow
  | mulOverflow
  | zeroModulus
  | raised (f : Fault)
  deriving DecidableEq

def Trap.message : Trap → String
  | .addOverflow => "attempt to add with overflow"
  | .subOverflow => "attempt to subtract with overflow"
  | .mulOverflow => "attempt to multiply with overflow"
  | .zeroModulus => "attempt to calculate the remainder with a divisor of zero"
  | .raised f => f.message

inductive Failure
  | fault (f : Fault)
  | trap (t : Trap)
  deriving DecidableEq

/-- The result of a request. -/
abbrev Outcome (α : Type) := Except Failure α

namespace Outcome

variable {α : Type}

def refuse (f : Fault) : Outcome α := .error (.fault f)

def trap (t : Trap) : Outcome α := .error (.trap t)

/-- A checked computation succeeds when its check does. -/
theorem check_eq_ok_iff {p : Prop} [Decidable p] {a b : α} {t : Trap} :
    (if p then .ok a else trap t) = .ok b ↔ p ∧ a = b := by
  split <;> rename_i h
  · simp [h]
  · simp [h, trap]

end Outcome

/-- A fault that nobody handles gives the request up, with the same words. -/
def Failure.escalate : Failure → Failure
  | .fault f => .trap (.raised f)
  | .trap t => .trap t

def Outcome.escalate {α : Type} (o : Outcome α) : Outcome α := o.mapError Failure.escalate

end LinearProgram
