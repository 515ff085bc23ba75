/-! The source units from which declarations are produced. -/

namespace FactTypes

/-- A source unit, known by its identifier alone. The empty identifier is one
    like any other. -/
structure Resource where
  id : String
deriving DecidableEq

def Resource.inspect (r : Resource) : String :=
  "ResourceId(" ++ r.id ++ ")"

end FactTypes
