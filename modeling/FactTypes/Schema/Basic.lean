import Std.Data.ExtTreeMap
import FactTypes.Schema.Signature

/-!
# Structural definitions

The schema of a type: its fields in the order in which they were first named,
some of them fixed at an index, and for each method the properties that it is
recorded to modify. An index belongs to one field at most. Every operation that
gives an index to a field takes it from whoever held it, so the last claim wins
and the loser stays in its place without an index.

## Main definitions

- `Field`, `Schema` — a field and a structural definition
- `Schema.field?`, `Schema.fieldAt?` — the field of a name, the field at an
  index
- `Schema.addField` — adds a field, or replaces the one of that name where it
  stands
- `Schema.fix?` — fixes an existing field at an index
- `Schema.positionOrder` — the fields at an index first, in ascending order
- `Schema.recordModified`, `Schema.modified?` — what a method modifies
-/

namespace FactTypes

open Std

structure Field where
  name : String
  type : String
  index : Option Nat := none
deriving DecidableEq

namespace Field

/-- The field fixed at an index. -/
def fixedAt (f : Field) (index : Nat) : Field :=
  { f with index := some index }

/-- The field once somebody of the name `holder` has been given the index: a
    field of another name gives that index up. -/
def yield (f : Field) (index : Nat) (holder : String) : Field :=
  if f.index = some index ∧ f.name ≠ holder then { f with index := none } else f

@[simp] theorem name_fixedAt (f : Field) (index : Nat) : (f.fixedAt index).name = f.name := rfl

@[simp] theorem name_yield (f : Field) (index : Nat) (holder : String) :
    (f.yield index holder).name = f.name := by
  unfold yield
  split <;> rfl

@[simp] theorem type_yield (f : Field) (index : Nat) (holder : String) :
    (f.yield index holder).type = f.type := by
  unfold yield
  split <;> rfl

end Field

/-- A structural definition. -/
structure Schema where
  className : String := ""
  superclass : Option String := none
  interfaces : List String := []
  isTrait : Bool := false
  fields : List Field := []
  modified : ExtTreeMap Signature (List String) := ∅
deriving DecidableEq

namespace Schema

def named (className : String) : Schema :=
  { className }

-- ═══════════════════════════════════════════════════════════════════════
-- Fields
-- ═══════════════════════════════════════════════════════════════════════

def fieldNames (s : Schema) : List String :=
  s.fields.map Field.name

def fieldCount (s : Schema) : Nat :=
  s.fields.length

def field? (s : Schema) (name : String) : Option Field :=
  s.fields.find? fun f => f.name = name

def hasField (s : Schema) (name : String) : Bool :=
  (s.field? name).isSome

def fieldAt? (s : Schema) (index : Nat) : Option Field :=
  s.fields.find? fun f => f.index = some index

/-- Takes an index from every field but the one of the name `holder`. -/
def release (s : Schema) (index : Nat) (holder : String) : Schema :=
  { s with fields := s.fields.map fun f => f.yield index holder }

/-- Puts a field in the place of the one of its name, or behind all others when
    there is none. -/
def put (s : Schema) (field : Field) : Schema :=
  if s.hasField field.name then
    { s with fields := s.fields.map fun f => if f.name = field.name then field else f }
  else
    { s with fields := s.fields ++ [field] }

/-- Adds a field. It replaces the one of its name, index included, and takes
    its index from any other field. -/
def addField (s : Schema) (field : Field) : Schema :=
  match field.index with
  | some index => (s.release index field.name).put field
  | none => s.put field

/-- Fixes the field of the name at an index, taking the index from any other
    field. Nothing when there is no such field. -/
def fix? (s : Schema) (name : String) (index : Nat) : Option Schema :=
  if s.hasField name then
    let released := s.release index name
    some { released with
      fields := released.fields.map fun f => if f.name = name then f.fixedAt index else f }
  else
    none

/-- The fields at an index by ascending index, then the others in their
    order. -/
def positionOrder (s : Schema) : List Field :=
  (s.fields.filter fun f => f.index.isSome).mergeSort
      (fun f g => f.index.getD 0 ≤ g.index.getD 0) ++
    s.fields.filter fun f => f.index.isNone

-- ═══════════════════════════════════════════════════════════════════════
-- Modified properties
-- ═══════════════════════════════════════════════════════════════════════

def recordModified (s : Schema) (method : Signature) (properties : List String) : Schema :=
  { s with modified := s.modified.insert method properties }

def modified? (s : Schema) (method : Signature) : Option (List String) :=
  s.modified[method]?

-- ═══════════════════════════════════════════════════════════════════════
-- What the operations do to the field names and to the records
-- ═══════════════════════════════════════════════════════════════════════

theorem hasField_iff {s : Schema} {name : String} :
    s.hasField name = true ↔ name ∈ s.fieldNames := by
  simp [hasField, field?, fieldNames]

@[simp] theorem fieldNames_release (s : Schema) (index : Nat) (holder : String) :
    (s.release index holder).fieldNames = s.fieldNames := by
  simp [release, fieldNames, Function.comp_def]

theorem fieldNames_put (s : Schema) (field : Field) :
    (s.put field).fieldNames =
      if field.name ∈ s.fieldNames then s.fieldNames else s.fieldNames ++ [field.name] := by
  unfold put
  by_cases h : s.hasField field.name = true
  · rw [if_pos h, if_pos (hasField_iff.1 h)]
    simp only [fieldNames, List.map_map]
    apply List.map_congr_left
    intro f _
    simp only [Function.comp_apply]
    split <;> simp_all
  · rw [if_neg h, if_neg (fun hmem => h (hasField_iff.2 hmem))]
    simp [fieldNames]

/-- Adding a field names it last, or names nothing anew. -/
theorem fieldNames_addField (s : Schema) (field : Field) :
    (s.addField field).fieldNames =
      if field.name ∈ s.fieldNames then s.fieldNames else s.fieldNames ++ [field.name] := by
  unfold addField
  split <;> rw [fieldNames_put]
  rw [fieldNames_release]

/-- Fixing a field names nothing anew. -/
theorem fieldNames_fix? {s t : Schema} {name : String} {index : Nat}
    (h : s.fix? name index = some t) : t.fieldNames = s.fieldNames := by
  unfold fix? at h
  split at h
  · obtain rfl := Option.some.inj h
    rw [← fieldNames_release s index name]
    simp only [fieldNames, List.map_map]
    apply List.map_congr_left
    intro f _
    simp only [Function.comp_apply]
    split <;> simp
  · cases h

/-- Fixing fails exactly for a name that no field has. -/
theorem fix?_eq_none_iff {s : Schema} {name : String} {index : Nat} :
    s.fix? name index = none ↔ name ∉ s.fieldNames := by
  rw [← hasField_iff]
  unfold fix?
  split <;> simp_all

/-- A record is read back, and the other methods keep theirs. -/
theorem modified?_recordModified (s : Schema) (method other : Signature)
    (properties : List String) :
    (s.recordModified method properties).modified? other =
      if method = other then some properties else s.modified? other := by
  simp [recordModified, modified?, ExtTreeMap.getElem?_insert]

end Schema

end FactTypes
