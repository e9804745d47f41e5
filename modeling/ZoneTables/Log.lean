/-!
# Messages

A step of the compiler that has something to report returns its messages beside its result.
-/

namespace ZoneTables

inductive Level where
  | info
  | warning
  | error
deriving DecidableEq

def Level.label : Level → String
  | info => "INFO"
  | warning => "WARNING"
  | error => "ERROR"

/-- Levels in the order of their weight. -/
def Level.rank : Level → Nat
  | info => 0
  | warning => 1
  | error => 2

structure Message where
  level : Level
  text : String
deriving DecidableEq

/-- Messages in the order in which they came. -/
abbrev Log := List Message

namespace Message

def info (text : String) : Message := ⟨.info, text⟩

def warning (text : String) : Message := ⟨.warning, text⟩

def error (text : String) : Message := ⟨.error, text⟩

end Message
end ZoneTables
