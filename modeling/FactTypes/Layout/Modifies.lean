import FactTypes.Host.Basic
import FactTypes.Schema.Basic
import FactTypes.Text.Blank

/-!
# Modified properties

A method may carry a marker that names the properties it modifies. Each entry
of the marker is a comma-separated list; blanks around a property and empty
properties do not count, and a marker that names nothing records nothing.
-/

namespace FactTypes

/-- The properties that the entries of a marker name, in their order. -/
def modifiedProperties (entries : List String) : List String :=
  (((entries.flatMap fun entry => entry.toList.splitOn ',').map Text.trim).filter
    fun property => !property.isEmpty).map String.ofList

theorem modifiedProperties_append (before after : List String) :
    modifiedProperties (before ++ after) =
      modifiedProperties before ++ modifiedProperties after := by
  simp [modifiedProperties]

namespace HostMethod

def signature (m : HostMethod) : Signature :=
  { name := m.name, parameters := m.parameters }

/-- What a method has to record: the properties that its marker names, if there
    is a marker and it names any. -/
def record? (m : HostMethod) : Option (Signature × List String) :=
  match m.modifies with
  | none => none
  | some entries =>
    match modifiedProperties entries with
    | [] => none
    | properties => some (m.signature, properties)

end HostMethod

/-- The schema with the records of a type's own methods. Of two records of one
    signature the later stands. -/
def Schema.recordMethods (s : Schema) (c : HostType) : Schema :=
  (c.methods.filterMap HostMethod.record?).foldl
    (fun s record => s.recordModified record.1 record.2) s

end FactTypes
