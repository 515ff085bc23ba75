import FactTypes.Fault
import FactTypes.Text.Keyword

/-! The closed vocabularies of declarations. -/

namespace FactTypes

/-- What sort of type a declaration describes. -/
inductive Kind where
  | ordinary
  | asTrait
  /-- A type that belongs to the engine. -/
  | builtin
deriving DecidableEq

/-- Where a declaration comes from. -/
inductive Nature where
  | declared
  | discovered
deriving DecidableEq

/-- Whether the instances of a type are plain facts or events in time. -/
inductive Role where
  | fact
  | event
deriving DecidableEq

/-- How the instances of a type are represented. -/
inductive Format where
  | pojo
  | asTrait
deriving DecidableEq

/-- How changes to an instance are tracked. -/
inductive Reactivity where
  /-- Every change is a change of the whole object. -/
  | wholeObject
  /-- Each property is tracked by itself. -/
  | property
deriving DecidableEq

namespace Role

def word : Role → String
  | .fact => "fact"
  | .event => "event"

/-- Reads the word for a role, leniently. A fault quotes the word as it was
    written. -/
def parse (text : String) : Except Fault Role :=
  match Text.keyword text with
  | "fact" => .ok .fact
  | "event" => .ok .event
  | _ => .error (.invalidOption "role" text)

theorem parse_word (r : Role) : parse r.word = .ok r := by
  cases r <;> rfl

end Role

end FactTypes
