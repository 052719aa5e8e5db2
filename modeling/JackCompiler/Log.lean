/-!
# Log records

What the compiler tells besides its result: records of five levels, from `error` down to `trace`.
-/

namespace JackCompiler.Log

/-- The levels, the most severe first. -/
inductive Level
  | error | warn | info | debug | trace
  deriving DecidableEq, Repr

/-- How far a level is from the most severe one. -/
def Level.depth : Level → Nat
  | error => 0
  | warn => 1
  | info => 2
  | debug => 3
  | trace => 4

def Level.name : Level → String
  | error => "ERROR"
  | warn => "WARN"
  | info => "INFO"
  | debug => "DEBUG"
  | trace => "TRACE"

structure Record where
  level : Level
  message : String
  deriving DecidableEq, Repr

/-- The record as one line of a log. -/
def Record.text (record : Record) : String := record.level.name ++ " " ++ record.message

/-- The records of a level or a more severe one. -/
def atMost (level : Level) (records : List Record) : List Record :=
  records.filter fun record => record.level.depth ≤ level.depth

end JackCompiler.Log
