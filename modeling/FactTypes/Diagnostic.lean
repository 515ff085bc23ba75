import FactTypes.Fault
import FactTypes.TypeName

/-! Faults that do not stop a resolution. Each is attached to the declaration
that was being built. -/

namespace FactTypes

/-- A failure and the type whose declaration was being built. -/
structure Diagnostic where
  typeName : TypeName
  failure : Failure
deriving DecidableEq

/-- The wording of a diagnostic: the type, then what is wrong. -/
def Diagnostic.message (d : Diagnostic) : String :=
  d.typeName.text ++ ": " ++ d.failure.message

/-- The diagnostics of a compilation, oldest first. -/
structure Diagnostics where
  entries : List Diagnostic := []
deriving DecidableEq

namespace Diagnostics

def empty : Diagnostics := {}

/-- Adds diagnostics behind those already there. -/
def report (ds : Diagnostics) (new : List Diagnostic) : Diagnostics :=
  ⟨ds.entries ++ new⟩

def size (ds : Diagnostics) : Nat :=
  ds.entries.length

def isEmpty (ds : Diagnostics) : Bool :=
  ds.entries.isEmpty

def forType (ds : Diagnostics) (name : TypeName) : List Diagnostic :=
  ds.entries.filter fun d => d.typeName = name

/-- Hands over every diagnostic and starts anew. -/
def drain (ds : Diagnostics) : List Diagnostic × Diagnostics :=
  (ds.entries, empty)

end Diagnostics

end FactTypes
