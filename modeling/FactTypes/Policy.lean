import FactTypes.Declaration.Vocabulary

/-!
# Reactivity policy

Whether the declaration of a host type tracks its properties one by one. The
policy is an option of the compilation; the host type has a say through its
markers.
-/

namespace FactTypes

/-- When properties are tracked one by one. -/
inductive ReactivityPolicy where
  | disabled
  /-- If the type asks for it. -/
  | allowed
  /-- Unless the type asks for the contrary. -/
  | always
deriving DecidableEq

namespace ReactivityPolicy

/-- The policy in force when nothing is said. -/
def standard : ReactivityPolicy := .always

def word : ReactivityPolicy → String
  | .disabled => "disabled"
  | .allowed => "allowed"
  | .always => "always"

def key : String := "typedecl.propertySpecific"

/-- Whether properties are tracked one by one, given whether the type carries
    the marker for it and the marker against it. -/
def tracksProperties (p : ReactivityPolicy) (propertyReactive wholeReactive : Bool) : Bool :=
  match p with
  | .disabled => false
  | .allowed => propertyReactive
  | .always => !wholeReactive

/-- Reads the word for a policy, leniently. A fault quotes the word as it was
    written. -/
def parse (text : String) : Except Fault ReactivityPolicy :=
  match Text.keyword text with
  | "disabled" => .ok .disabled
  | "allowed" => .ok .allowed
  | "always" => .ok .always
  | _ => .error (.invalidOption key text)

/-- The policy after one more pair: a pair with another key changes nothing. -/
def read (current : ReactivityPolicy) (property : String × String) :
    Except Fault ReactivityPolicy :=
  if property.1 = key then parse property.2 else .ok current

/-- Reads the policy from key and value pairs. The last pair counts, but the
    first word that is not known is a fault, whatever follows it. -/
def ofProperties (properties : List (String × String)) : Except Fault ReactivityPolicy :=
  properties.foldlM read standard

theorem parse_word (p : ReactivityPolicy) : parse p.word = .ok p := by
  cases p <;> rfl

end ReactivityPolicy

end FactTypes
