import LinearProgram.Model.Rows

/-!
Models as LP text: objective, rows, bounds and integer columns, one section after the other. A row
with two bounds is written as two rows, a row without bounds as a comment.
-/

namespace LinearProgram

namespace LpText

def punctuation : List Char := "!\"#$%&(),./;?@_`'\x7b\x7d|~".toList

def isNameChar (c : Char) : Bool := c.isAlphanum || punctuation.contains c

/-- Brackets become parentheses, other foreign characters a low line. -/
def nameChar (c : Char) : Char :=
  if c = '[' then '(' else if c = ']' then ')' else if isNameChar c then c else '_'

def startsLikeNumber : List Char → Bool
  | [] => true
  | c :: _ => c.isDigit || c = '.'

/-- The name in LP text: letters, digits and some punctuation, not starting like a number. -/
def name (s : String) : String :=
  let cs := s.toList.map nameChar
  String.ofList (if startsLikeNumber cs then '_' :: cs else cs)

variable {κ : Type} [Scalar κ]

/-- The `k`-th entry of a line; signs stand apart from all coefficients but the first. -/
def entry (k : Nat) (c : κ) (name : String) : String :=
  let signed :=
    if k = 0 then " " ++ Scalar.text c
    else if c < 0 then " - " ++ Scalar.text (-c)
    else " + " ++ Scalar.text c
  signed ++ " " ++ name ++ if k % 8 = 7 then "\n" else ""

def linear (names : Array String) (entries : List (Nat × κ)) : String :=
  if entries.isEmpty then " 0"
  else String.join (entries.zipIdx.map fun ((j, c), k) => entry k c (names.getD j ""))

def sense : Sense → String
  | .minimize => "Minimize"
  | .maximize => "Maximize"

/-- The constant of the objective, written if it is not zero or stands alone. -/
def constant (o : FlatObjective κ) : String :=
  if !(o.constant == 0) || o.entries.isEmpty then
    (if o.constant < 0 then " - " else " + ") ++ Scalar.text (Scalar.abs o.constant)
  else ""

def objective (names : Array String) (o : FlatObjective κ) : String :=
  " " ++ name o.name ++ ":" ++ (if o.entries.isEmpty then "" else linear names o.entries)
    ++ constant o

def row (names : Array String) (r : Row κ) : List String :=
  let line (suffix relation : String) (v : κ) : String :=
    " " ++ name r.name ++ suffix ++ ":" ++ linear names r.entries ++ relation ++ Scalar.text v
  match r.bounds with
  | .free => ["\\ free row " ++ name r.name]
  | .atLeast l => [line "" " >= " l]
  | .atMost u => [line "" " <= " u]
  | .fixed v => [line "" " = " v]
  | .between l u => [line ".lo" " >= " l, line ".hi" " <= " u]

def bounds (name : String) : Interval κ → String
  | .free => " " ++ name ++ " free"
  | .atLeast l => " " ++ name ++ " >= " ++ Scalar.text l
  | .atMost u => " -inf <= " ++ name ++ " <= " ++ Scalar.text u
  | .between l u => " " ++ Scalar.text l ++ " <= " ++ name ++ " <= " ++ Scalar.text u
  | .fixed v => " " ++ name ++ " = " ++ Scalar.text v

/-- The names of the integer columns, eight on a line. -/
def general : List String → List String
  | a :: b :: c :: d :: e :: f :: g :: h :: names =>
    String.join ([a, b, c, d, e, f, g, h].map (" " ++ ·)) :: general names
  | [] => []
  | names => [String.join (names.map (" " ++ ·))]

def generalSection (columns : List (Column κ)) : List String :=
  match columns.filter (·.integer) with
  | [] => []
  | integers => "General" :: general (integers.map fun c => name c.name)

def lines (title : Option String) (columns : List (Column κ)) (rows : List (Row κ))
    (o : FlatObjective κ) : List String :=
  let names := (columns.map fun c => name c.name).toArray
  ["\\ Problem: " ++ title.getD "model", sense o.sense, objective names o, "Subject To"]
    ++ rows.flatMap (row names)
    ++ "Bounds" :: columns.map (fun c => bounds (name c.name) c.bounds)
    ++ generalSection columns
    ++ ["End"]

def render (title : Option String) (columns : List (Column κ)) (rows : List (Row κ))
    (o : FlatObjective κ) : String :=
  String.join ((lines title columns rows o).map (· ++ "\n"))

end LpText

/-- Where LP text goes. -/
inductive Sink
  | unlimited
  | upTo (bytes : Nat)
  | missing
  deriving DecidableEq

namespace Sink

/-- A sink that is not there is noticed before anything is written. -/
def opening : Sink → Outcome Unit
  | missing => .refuse (.io "No such file or directory (os error 2)")
  | _ => .ok ()

def accept (text : String) : Sink → Outcome Unit
  | upTo bytes => if text.utf8ByteSize ≤ bytes then .ok () else .refuse (.io "limit reached")
  | _ => .ok ()

end Sink

end LinearProgram
