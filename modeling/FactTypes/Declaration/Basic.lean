import FactTypes.Declaration.Setting
import FactTypes.Resource
import FactTypes.Schema.Basic
import FactTypes.TypeName

/-! The record that is kept for a fact type: whose type it is, where it came
from, its structural definition, and the settings that it shares with its
descendants. -/

namespace FactTypes

structure Declaration where
  name : TypeName
  kind : Kind := .ordinary
  nature : Nature := .declared
  typeClass : Option TypeName := none
  schema : Option Schema := none
  settings : Settings := {}
  reactivity : Reactivity := .wholeObject
  resource : Option Resource := none
deriving DecidableEq

namespace Declaration

/-- The declaration of a type that was written in rule source. -/
def declared (name : TypeName) : Declaration :=
  { name }

/-- The declaration of a type that was derived from the host type of its
    name. -/
def discovered (name : TypeName) : Declaration :=
  { name, nature := .discovered, typeClass := some name }

/-- Whether the changes of each property are tracked by themselves. -/
def isPropertyReactive (d : Declaration) : Bool :=
  d.reactivity = .property

def setPropertyReactive (d : Declaration) (on : Bool) : Declaration :=
  { d with reactivity := if on then .property else .wholeObject }

def setRole (d : Declaration) (role : Role) : Declaration :=
  { d with settings := { d.settings with role := .explicit role } }

def setFormat (d : Declaration) (format : Format) : Declaration :=
  { d with settings := { d.settings with format := .explicit format } }

def setTypesafe (d : Declaration) (typesafe : Bool) : Declaration :=
  { d with settings := { d.settings with typesafe := .explicit typesafe } }

def inherit (d : Declaration) (ancestor : Settings) : Declaration :=
  { d with settings := d.settings.inherit ancestor }

@[simp] theorem settings_inherit (d : Declaration) (ancestor : Settings) :
    (d.inherit ancestor).settings = d.settings.inherit ancestor := rfl

def isFrom (d : Declaration) (r : Resource) : Bool :=
  d.resource = some r

end Declaration

end FactTypes
