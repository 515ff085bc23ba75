import FactTypes.Fault
import FactTypes.Host.ClassPath
import FactTypes.Schema.Basic

/-!
# Placement of fields by their position markers

A host field may carry a marker that asks for a position among the flattened
fields of its type. A marker is granted the slot it asks for when the slot
exists and no earlier field was granted it. What a marker is granted depends on
the flattened fields alone; only afterwards are the granted slots written into
the schema.
-/

namespace FactTypes

/-- A position marker and the host field that carries it. -/
structure PositionMarker where
  field : String
  type : String
  position : Int
deriving DecidableEq

def HostField.marker? (f : HostField) : Option PositionMarker :=
  f.position.map fun position => { field := f.name, type := f.type, position }

/-- What becomes of a position marker. -/
inductive Verdict where
  | outOfRange
  | duplicate
  | granted (slot : Nat)
deriving DecidableEq

/-- The slot that a position denotes among so many. -/
def slot? (count : Nat) (position : Int) : Option Nat :=
  if 0 ≤ position ∧ position < count then some position.toNat else none

/-- The verdict on each marker when there are `count` slots and the `claimed`
    ones are taken. -/
def judge (count : Nat) (claimed : List Nat) :
    List PositionMarker → List (PositionMarker × Verdict)
  | [] => []
  | m :: rest =>
    match slot? count m.position with
    | none => (m, .outOfRange) :: judge count claimed rest
    | some slot =>
      if slot ∈ claimed then
        (m, .duplicate) :: judge count claimed rest
      else
        (m, .granted slot) :: judge count (slot :: claimed) rest

/-- A field and the slot that it was granted. -/
structure Placement where
  field : String
  type : String
  slot : Nat
deriving DecidableEq

def PositionMarker.placement? (m : PositionMarker) : Verdict → Option Placement
  | .granted slot => some { field := m.field, type := m.type, slot }
  | _ => none

/-- The fault of a marker that was refused. -/
def PositionMarker.fault? (m : PositionMarker) (owner : String) : Verdict → Option Fault
  | .outOfRange => some (.outOfRangePosition m.position m.field owner)
  | .duplicate => some (.duplicatePosition m.position m.field owner)
  | .granted _ => none

/-- Writes a granted slot into a schema: the field of that name is fixed there,
    and is added when the schema lacks it. -/
def Schema.place (s : Schema) (p : Placement) : Schema :=
  match s.fix? p.field p.slot with
  | some fixed => fixed
  | none => s.addField { name := p.field, type := p.type, index := some p.slot }

namespace ClassPath

/-- The verdicts on the position markers of a host type, in the order of its
    flattened fields. There are as many slots as flattened fields. -/
def verdicts (p : ClassPath) (c : HostType) : List (PositionMarker × Verdict) :=
  let fields := p.flattenFields c
  judge fields.length [] (fields.filterMap HostField.marker?)

/-- The slots that the fields of a host type are granted, in order. -/
def placements (p : ClassPath) (c : HostType) : List Placement :=
  (p.verdicts c).filterMap fun (m, verdict) => m.placement? verdict

/-- The faults of the refused markers of a host type, in order. -/
def positionFaults (p : ClassPath) (c : HostType) : List Fault :=
  (p.verdicts c).filterMap fun (m, verdict) => m.fault? c.name.text verdict

end ClassPath

/-- The schema with every slot that the fields of a host type are granted. -/
def Schema.placeFields (s : Schema) (p : ClassPath) (c : HostType) : Schema :=
  (p.placements c).foldl place s

/-- A position denotes the slot of its own number, if it is in range. -/
theorem slot?_eq_some_iff {count slot : Nat} {position : Int} :
    slot? count position = some slot ↔ position = slot ∧ slot < count := by
  unfold slot?
  split
  · rw [Option.some.injEq]
    omega
  · constructor
    · intro h
      cases h
    · rintro ⟨rfl, h⟩
      omega

end FactTypes
