import FactTypes.Declaration.Basic
import FactTypes.Layout.Modifies
import FactTypes.Layout.Placement
import FactTypes.Layout.Population
import FactTypes.Policy

/-! What a host type gives to its declaration: a structural definition if there is
none yet, the records of its methods if properties are tracked, and the slots
of its position markers. -/

namespace FactTypes

/-- The definition that a host type has by itself; it is a trait if the type
    carries the marker. -/
def Schema.ofHostType (p : ClassPath) (c : HostType) : Schema :=
  populate {} p c c.markers.isTrait

namespace Declaration

/-- The structural definition to lay out on: the one that the declaration has,
    or else that of the host type. -/
def baseSchema (d : Declaration) (p : ClassPath) (c : HostType) : Schema :=
  d.schema.getD (.ofHostType p c)

/-- The structural definition once it is laid out. The records of the methods
    come before the slots. -/
def finishedSchema (d : Declaration) (p : ClassPath) (c : HostType) : Schema :=
  let base := d.baseSchema p c
  (if d.isPropertyReactive then base.recordMethods c else base).placeFields p c

/-- The declaration with its structure laid out. -/
def layOut (d : Declaration) (p : ClassPath) (c : HostType) : Declaration :=
  { d with schema := some (d.finishedSchema p c) }

/-- Only the structural definition changes. -/
theorem layOut_eq (d : Declaration) (p : ClassPath) (c : HostType) :
    d.layOut p c = { d with schema := (d.layOut p c).schema } := rfl

/-- The declaration of a host type that has none yet. Its role marker is as
    good as a role in rule source. -/
def ofHostType (policy : ReactivityPolicy) (c : HostType) : Declaration :=
  let d := { discovered c.name with resource := c.resource }
  let d := d.setPropertyReactive
    (policy.tracksProperties c.markers.propertyReactive c.markers.wholeReactive)
  match c.markers.role with
  | some role => d.setRole role
  | none => d

end Declaration

end FactTypes
