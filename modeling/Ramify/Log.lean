namespace Ramify

inductive Level where
  | warn | info | debug | trace
deriving DecidableEq

namespace Level

def severity : Level → Nat
  | warn => 0
  | info => 1
  | debug => 2
  | trace => 3

def name : Level → String
  | warn => "WARN"
  | info => "INFO"
  | debug => "DEBUG"
  | trace => "TRACE"

end Level

structure Record where
  level : Level
  message : String

namespace Record

def text (r : Record) : String := r.level.name ++ " " ++ r.message

def upTo (level : Level) (records : List Record) : List Record :=
  records.filter fun r => r.level.severity ≤ level.severity

end Record

end Ramify
