import Std.Data.ExtTreeMap

/-! A method is identified by its name and the types of its parameters, so
overloads of one name are different methods. -/

namespace FactTypes

open Std

structure Signature where
  name : String
  parameters : List String := []
deriving DecidableEq

namespace Signature

instance : Ord Signature :=
  ⟨compareLex (compareOn Signature.name) (compareOn Signature.parameters)⟩

instance : TransOrd Signature :=
  inferInstanceAs
    (TransCmp (compareLex (compareOn Signature.name) (compareOn Signature.parameters)))

instance : LawfulEqOrd Signature where
  eq_of_compare {a b} h := by
    cases a
    cases b
    obtain ⟨hname, hparameters⟩ := compareLex_eq_eq.1 h
    congr
    · exact LawfulEqOrd.eq_of_compare hname
    · exact LawfulEqOrd.eq_of_compare hparameters

def render (s : Signature) : String :=
  s.name ++ "(" ++ String.intercalate ", " s.parameters ++ ")"

/-- Overloads follow their shorter relatives. -/
example : compare (Signature.mk "f" ["int"]) ⟨"f", ["int", "int"]⟩ = .lt := by decide

end Signature

end FactTypes
