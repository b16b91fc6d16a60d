/-!
What a model reports while it works.
-/

namespace LinearProgram

inductive LogLevel
  | trace
  | debug
  deriving DecidableEq

inductive LogRecord
  | placed (family : String) (first stop : Nat)
  | laidOut (model : Option String) (families columns : Nat)
  | flattened (rows columns : Nat)
  | written (columns rows : Nat)
  deriving DecidableEq

namespace LogRecord

def level : LogRecord → LogLevel
  | placed .. => .trace
  | laidOut .. | flattened .. | written .. => .debug

def message : LogRecord → String
  | placed family first stop => s!"variable set {family} : columns {first}..{stop}"
  | laidOut model families columns =>
    let name := model.getD "<unnamed>"
    s!"sealed model {name} : {families} variable sets, {columns} columns"
  | flattened rows columns => s!"flattened {rows} rows over {columns} columns"
  | written columns rows => s!"wrote LP problem: {columns} columns, {rows} rows"

end LogRecord

end LinearProgram
