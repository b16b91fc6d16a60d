import LinearProgram.Model.Layout

/-!
Requests that change a model, as data, and what they do to it. A history of a model is a list of
them.
-/

namespace LinearProgram

inductive Action (κ : Type)
  | addLabels (d : Dimension) (labels : List String)
  | setLimit (marker : Marker) (v : Int)
  | declareParameter (name : Option String) (space : Space) (domain : Domain κ) (fallback : κ)
  | setDefault (slot : Nat) (v : κ)
  | store (slot : Nat) (coords : List Nat) (v : κ)
  | storeLabelled (slot : Nat) (labels : List String) (v : κ)
  | declareFamily (name : Option String) (space : Space) (domain : Domain κ)
  | placeFamily (slot start : Nat)
  | sealUp
  | constrain (name : Option String) (c : Constraint κ)
  | constrainEach (name : Option String) (space : Space)
      (body : List Nat → Outcome (Constraint κ))
  | setObjective (name : Option String) (sense : Option Sense) (e : Option (Expr κ))

variable {κ : Type} [Scalar κ]

namespace Model

/-- The outcome of a request that changes nothing when it fails. -/
def commit (m : Model κ) (added : List Nat) : Outcome (Model κ) → Outcome (List Nat) × Model κ
  | .ok m => (.ok added, m)
  | .error e => (.error e, m)

/-- Carries out a request. The answer lists the positions of the labels, the parameter or the
family that it has added. -/
def perform (m : Model κ) : Action κ → Outcome (List Nat) × Model κ
  | .addLabels d labels => m.addLabels d labels
  | .setLimit marker v => m.commit [] (m.setLimit marker v)
  | .declareParameter name space domain fallback =>
    (.ok [m.parameters.length], m.declareParameter name space domain fallback)
  | .setDefault slot v => m.commit [] (m.setDefault slot v)
  | .store slot coords v => (m.store slot coords v).map (·.map fun _ => []) id
  | .storeLabelled slot labels v => (m.storeLabelled slot labels v).map (·.map fun _ => []) id
  | .declareFamily name space domain =>
    m.commit [m.families.length] (m.declareFamily name space domain)
  | .placeFamily slot start => m.commit [] (m.placeFamily slot start)
  | .sealUp => m.sealUp.map (·.map fun _ => []) id
  | .constrain name c => (.ok [], m.constrain name c)
  | .constrainEach name space body => m.commit [] (m.constrainEach name space body)
  | .setObjective name sense e => (.ok [], m.setObjective name sense e)

/-- The model after a history, whatever its requests answered. -/
def run (m : Model κ) (history : List (Action κ)) : Model κ :=
  history.foldl (fun m a => (m.perform a).2) m

end Model

end LinearProgram
