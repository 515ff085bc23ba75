import Std.Data.ExtTreeMap
import FactTypes.Fault
import FactTypes.Text.Segments

/-!
# Type names

Types are identified by dotted names such as `com.acme.Person`. The package is
what stands before the last dot and the simple name what stands after it; a
name without a dot lies in the default package, whose name is empty.
-/

namespace FactTypes

open Std

/-- A dotted type name. Any text is one; `TypeName.parse` tells the well-formed
    ones. -/
structure TypeName where
  text : String
deriving DecidableEq

namespace TypeName

instance : Ord TypeName := ⟨fun a b => compare a.text b.text⟩

/-- Names are ordered as their texts are: by code point. -/
theorem compare_eq (a b : TypeName) : compare a b = compare a.text b.text := rfl

instance : TransOrd TypeName :=
  inferInstanceAs (TransCmp (compareOn TypeName.text))

instance : LawfulEqOrd TypeName where
  eq_of_compare {a b} h := by
    cases a
    cases b
    congr
    exact LawfulEqOrd.eq_of_compare h

/-- Names in ascending order; a name that occurs twice is kept twice. -/
def sort (ns : List TypeName) : List TypeName :=
  ns.mergeSort fun a b => (compare a b).isLE

/-- What stands before the last dot; empty for the default package. -/
def package (n : TypeName) : String :=
  match Text.splitLast '.' n.text.toList with
  | some (before, _) => String.ofList before
  | none => ""

/-- What stands after the last dot. -/
def simpleName (n : TypeName) : String :=
  match Text.splitLast '.' n.text.toList with
  | some (_, after) => String.ofList after
  | none => n.text

/-- The name of a simple name within a package. Nothing is put before a name
    of the default package. -/
def ofParts (package simpleName : String) : TypeName :=
  if package = "" then ⟨simpleName⟩ else ⟨package ++ "." ++ simpleName⟩

/-- The class that every class ultimately extends. -/
def root : TypeName := ⟨"lang.Object"⟩

/-- Whether a name is that of the root class. -/
def isRoot (n : TypeName) : Bool :=
  n = root

def inspect (n : TypeName) : String :=
  "QualifiedName(" ++ n.text ++ ")"

/-- The stretches between the dots of a text; a text without a dot is its own
    only segment. -/
def segments (text : String) : List (List Char) :=
  text.toList.splitOn '.'

/-- Whether a text is a well-formed name: none of its segments is empty, so it
    is not empty itself. -/
def isWellFormed (text : String) : Bool :=
  (segments text).all fun segment => !segment.isEmpty

def parse (text : String) : Except Fault TypeName :=
  if isWellFormed text then .ok ⟨text⟩ else .error (.invalidName text)

/-- Reading keeps the text, and succeeds exactly on the well-formed ones. -/
theorem parse_eq_ok_iff {text : String} {n : TypeName} :
    parse text = .ok n ↔ isWellFormed text = true ∧ n = ⟨text⟩ := by
  unfold parse
  split
  · next h => rw [Except.ok.injEq]; exact ⟨fun e => ⟨h, e.symm⟩, fun e => e.2.symm⟩
  · next h => exact ⟨fun e => (nomatch e), fun e => absurd e.1 h⟩

end TypeName

end FactTypes
