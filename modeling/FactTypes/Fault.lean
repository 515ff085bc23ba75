/-! What can be wrong with a name, an option or a position marker, and where it
was met. The cause and the place are kept apart: the wording of a fault never
depends on its place. -/

namespace FactTypes

inductive Fault where
  /-- A position marker outside the range of the flattened fields. -/
  | outOfRangePosition (position : Int) (field owner : String)
  /-- A position marker whose slot an earlier field has claimed. -/
  | duplicatePosition (position : Int) (field owner : String)
  /-- An option or marker word that is not one of the known words. -/
  | invalidOption (key value : String)
  /-- A dotted name with an empty segment. -/
  | invalidName (name : String)
deriving DecidableEq

def Fault.message : Fault → String
  | .outOfRangePosition position field owner =>
    "Out of range position " ++ toString position ++ " for field '" ++ field ++ "' on class " ++ owner
  | .duplicatePosition position field owner =>
    "Duplicated position " ++ toString position ++ " for field '" ++ field ++ "' on class " ++ owner
  | .invalidOption key value => "invalid value '" ++ value ++ "' for option " ++ key
  | .invalidName name => "invalid name: '" ++ name ++ "'"

/-- Where a fault was met: the resource being compiled, and the types being
    resolved, outermost first. -/
structure Trace where
  resource : Option String := none
  frames : List String := []
deriving DecidableEq

namespace Trace

def inResource (t : Trace) (resource : String) : Trace :=
  { t with resource := some resource }

/-- The trace with one more, innermost, type being resolved. -/
def push (t : Trace) (frame : String) : Trace :=
  { t with frames := t.frames ++ [frame] }

/-- The wording of a trace: the resource, then one line per type. Nothing is
    written for a part that is missing. -/
def message (t : Trace) : String :=
  (match t.resource with
    | some resource => "in " ++ resource
    | none => "") ++
  (if t.frames.isEmpty then ""
    else "\n" ++ String.join (t.frames.map fun frame => "  resolving " ++ frame ++ "\n"))

end Trace

/-- A fault and, when known, the place where it was met. -/
structure Failure where
  fault : Fault
  trace : Option Trace := none
deriving DecidableEq

namespace Failure

/-- The failure met at the given place; an earlier place is forgotten. -/
def located (f : Failure) (trace : Trace) : Failure :=
  { f with trace := some trace }

/-- The wording of a failure is that of its fault alone. -/
def message (f : Failure) : String :=
  f.fault.message

end Failure

end FactTypes
