import FactTypes.Declaration.Vocabulary
import FactTypes.Resource
import FactTypes.TypeName

/-! What is known of a type of the host program: its shape, its place in the
hierarchy, the fields and methods it declares itself, and the markers it
carries. -/

namespace FactTypes

inductive Shape where
  | concrete
  | interface
  | primitive
  | array
deriving DecidableEq

/-- A field that a host type declares itself, and the value of its position
    marker. -/
structure HostField where
  name : String
  type : String
  position : Option Int := none
deriving DecidableEq

/-- A method that a host type declares itself, and the entries of its marker of
    modified properties. A marker without entries differs from none. -/
structure HostMethod where
  name : String
  parameters : List String := []
  modifies : Option (List String) := none
deriving DecidableEq

structure Markers where
  role : Option Role := none
  propertyReactive : Bool := false
  wholeReactive : Bool := false
  isTrait : Bool := false
deriving DecidableEq

structure HostType where
  name : TypeName
  shape : Shape := .concrete
  /-- The direct superclass; none stands for the root. -/
  superclass : Option TypeName := none
  /-- The interfaces that it implements directly, or extends as an interface. -/
  interfaces : List TypeName := []
  fields : List HostField := []
  methods : List HostMethod := []
  markers : Markers := {}
  resource : Option Resource := none
deriving DecidableEq

namespace HostType

/-- Whether the type is primitive or an array; such a type has no
    declaration. -/
def isPlainValue (c : HostType) : Bool :=
  c.shape = .primitive || c.shape = .array

def isInterface (c : HostType) : Bool :=
  c.shape = .interface

/-- The superclass that counts for the hierarchy: an interface has none, and
    the root is not mentioned. -/
def effectiveSuperclass (c : HostType) : Option TypeName :=
  if c.isInterface then none else c.superclass.filter fun n => !n.isRoot

def package (c : HostType) : String :=
  c.name.package

theorem effectiveSuperclass_eq_some_iff {c : HostType} {n : TypeName} :
    c.effectiveSuperclass = some n ↔
      c.shape ≠ .interface ∧ c.superclass = some n ∧ n ≠ TypeName.root := by
  unfold effectiveSuperclass isInterface TypeName.isRoot
  split
  · simp_all
  · simp_all [Option.filter_eq_some_iff]

end HostType

end FactTypes
