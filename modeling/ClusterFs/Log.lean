/-!
Log records. A message is the list of pieces in which it is printed, because the serial line treats
line ends piece by piece.
-/
namespace ClusterFs

inductive Level where
  | error
  | warn
  | info
  | debug
  | trace
  deriving DecidableEq

namespace Level

def label : Level → String
  | error => "ERROR"
  | warn => "WARN"
  | info => "INFO"
  | debug => "DEBUG"
  | trace => "TRACE"

def rank : Level → Nat
  | error => 1
  | warn => 2
  | info => 3
  | debug => 4
  | trace => 5

/-- Whether records of this level pass a filter; without a limit nothing passes. -/
def passes (level : Level) : Option Level → Bool
  | none => false
  | some limit => level.rank ≤ limit.rank

end Level

structure Record where
  level : Level
  target : String
  pieces : List String
  deriving DecidableEq

def Record.message (r : Record) : String := String.join r.pieces

end ClusterFs
