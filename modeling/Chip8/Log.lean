/-!
Log records and the threshold that decides which of them are kept.
-/

namespace Chip8

/-- How important a record is, the most important level first. -/
inductive Level where
  | error
  | warn
  | info
  | debug
  | trace
  deriving DecidableEq, Repr

def Level.rank : Level → Nat
  | .error => 1
  | .warn => 2
  | .info => 3
  | .debug => 4
  | .trace => 5

structure LogRecord where
  level : Level
  text : String
  deriving DecidableEq, Repr

/-- The last level that is kept; with `none` nothing is. -/
abbrev Threshold := Option Level

def Threshold.keeps (t : Threshold) (level : Level) : Bool :=
  match t with
  | none => false
  | some last => level.rank ≤ last.rank

def Threshold.filter (t : Threshold) (records : List LogRecord) : List LogRecord :=
  records.filter fun r => t.keeps r.level

end Chip8
