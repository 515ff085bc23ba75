import FactTypes.Host.ClassPath
import FactTypes.Schema.Basic

/-! The header of a schema and its fields, as a host type and its superclasses
declare them. Of the fields of one name the nearest counts. -/

namespace FactTypes

/-- The first field of each name, in their order. -/
def nearestFields : List HostField → List HostField
  | [] => []
  | f :: rest => f :: (nearestFields rest).filter fun g => g.name ≠ f.name

def HostField.toField (f : HostField) : Field :=
  { name := f.name, type := f.type }

namespace Schema

/-- The schema under the header of a host type: its name, its effective
    superclass, its interfaces, and the given trait flag. -/
def describe (s : Schema) (c : HostType) (asTrait : Bool) : Schema :=
  { s with
    className := c.name.text
    superclass := c.effectiveSuperclass.map TypeName.text
    interfaces := c.interfaces.map TypeName.text
    isTrait := asTrait }

/-- The schema with the header of a host type and the nearest field of each
    name that the type has. -/
def populate (s : Schema) (p : ClassPath) (c : HostType) (asTrait : Bool) : Schema :=
  ((nearestFields (p.flattenFields c)).map HostField.toField).foldl addField
    (s.describe c asTrait)

end Schema

theorem nodup_map_name_nearestFields (fs : List HostField) :
    ((nearestFields fs).map HostField.name).Nodup := by
  induction fs with
  | nil => simp [nearestFields]
  | cons f rest ih =>
    rw [nearestFields, List.map_cons, List.nodup_cons]
    constructor
    · simp
    · exact ih.sublist (List.filter_sublist.map _)

end FactTypes
