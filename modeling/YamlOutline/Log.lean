/-!
Records of what happened, for whoever keeps a log.
-/

namespace YamlOutline.Log

/-- How much a record matters, most first. -/
inductive Level where
  | warn | info | debug
  deriving DecidableEq, Repr

/-- Whether a log that takes records down to `limit` takes one of this level. -/
def Level.within : Level → (limit : Level) → Bool
  | .warn, _ => true
  | .info, .warn => false
  | .info, _ => true
  | .debug, .debug => true
  | .debug, _ => false

/-- The part of the program that a record comes from. -/
inductive Part where
  | summary | tracker | events | files
  deriving DecidableEq, Repr

structure Record where
  level : Level
  part : Part
  message : String
  deriving DecidableEq, Repr

end YamlOutline.Log
