import FactTypes.Proofs.Session.IndexRange
import FactTypes.Proofs.Session.Runs

/-!
# Types of the fields that a host type adds

A definition gets fields from its host type in two ways. One that is built takes the
nearest field of each name. One that was written in rule source gets a field for every
further name that has an accepted position marker, and the type of that field is the one
at the first such marker, which may be on a shadowed field. So the fields that are added
have the types of the nearest fields exactly when the markers do.
-/

namespace FactTypes

/-- The type of the nearest field of a name. -/
def nearestType? (fields : List HostField) (name : String) : Option String :=
  (fields.find? fun f => f.name = name).map HostField.type

/-- The type at the first accepted marker of a name. -/
def markedType? (fields : List HostField) (name : String) : Option String :=
  ((acceptances fields).find? fun a => a.field = name).map Placement.type

/-- Whether every field of a schema whose name is none of the given ones has the type of
    the nearest host field of its name. -/
def Schema.TypedByNearest (s : Schema) (fields : List HostField) (names : List String) : Prop :=
  ∀ f ∈ s.fields, f.name ∉ names → nearestType? fields f.name = some f.type

/-- Whether for every name that is none of the given ones, the first accepted marker is
    on a field of the type of the nearest. -/
def MarkedByNearest (fields : List HostField) (names : List String) : Prop :=
  ∀ name, name ∉ names → ∀ type, markedType? fields name = some type →
    nearestType? fields name = some type

/-- The names of the fields that a declaration has without its host type. -/
def Declaration.authoredNames (d : Declaration) : List String :=
  d.schema.elim [] Schema.fieldNames

variable {s : Session} {p : ClassPath} {c : HostType} {d : Declaration}
  {fields : List HostField} {names : List String} {authored : Schema}

/-- As long as fields of one name have one type, no marker is on a field of another type
    than the nearest. -/
theorem markedByNearest_of_types
    (htypes : ∀ f ∈ fields, ∀ g ∈ fields, f.name = g.name → f.type = g.type) :
    MarkedByNearest fields names := by
  rintro name - type hmarked
  obtain ⟨a, ha, rfl⟩ := Option.map_eq_some_iff.1 hmarked
  have hname : a.field = name := by simpa using List.find?_some ha
  obtain ⟨place, f, hf, haccepted⟩ := mem_acceptances_iff.1 (List.mem_of_find?_eq_some ha)
  obtain ⟨-, -, hfield, htype⟩ := acceptance?_eq_some_iff.1 haccepted
  have hmem : f ∈ fields := List.mem_of_getElem? hf
  have hthere : (fields.find? fun g => g.name = name).isSome = true :=
    List.find?_isSome.2 ⟨f, hmem, by simp [← hname, hfield]⟩
  obtain ⟨g, hg⟩ := Option.isSome_iff_exists.1 hthere
  have hgname : g.name = name := by simpa using List.find?_some hg
  have hsame : g.type = f.type :=
    htypes g (List.mem_of_find?_eq_some hg) f hmem (by rw [hgname, ← hname, hfield])
  rw [nearestType?, hg, Option.map_some, hsame, htype]

-- ═══════════════════════════════════════════════════════════════════════
-- The two ways into a definition
-- ═══════════════════════════════════════════════════════════════════════

/-- Positions on a definition that is there. The fields that are added to it have the
    types of the nearest exactly when their markers do. -/
theorem Schema.typedByNearest_placeFields_iff (base : Schema) (p : ClassPath) (c : HostType) :
    (base.placeFields p c).TypedByNearest (p.flattenFields c) base.fieldNames ↔
      MarkedByNearest (p.flattenFields c) base.fieldNames := by
  rw [placeFields_eq]
  constructor
  · intro htyped name hlacking type hmarked
    refine htyped { name, type, index := lastSlot? (acceptances (p.flattenFields c)) name } ?_
      hlacking
    exact List.mem_append_right _ (mem_newcomers_iff.2 ⟨hlacking, hmarked, rfl⟩)
  · intro hmarked f hf hlacking
    rcases List.mem_append.1 hf with hold | hnew
    · -- the fields that were there keep their names
      obtain ⟨g, hg, rfl⟩ := List.mem_map.1 hold
      exact absurd (List.mem_map_of_mem hg) hlacking
    · obtain ⟨-, htype, -⟩ := mem_newcomers_iff.1 hnew
      exact hmarked f.name hlacking f.type htype

namespace Declaration

/-- A definition that is built has the types of the nearest fields. -/
theorem typedByNearest_of_built (hnone : d.schema = none) (p : ClassPath) (c : HostType) :
    (d.finishedSchema p c).TypedByNearest (p.flattenFields c) [] := by
  intro f hf _
  rw [fields_finishedSchema hnone] at hf
  obtain ⟨g, hg, rfl⟩ := List.mem_map.1 hf
  rw [nearestType?, mem_nearestFields_iff.1 hg, Option.map_some]

/-- A definition from rule source gets the types of the nearest fields exactly when the
    markers of the further names have them. -/
theorem typedByNearest_of_authored_iff (hauthored : d.schema = some authored) (p : ClassPath)
    (c : HostType) :
    (d.finishedSchema p c).TypedByNearest (p.flattenFields c) authored.fieldNames ↔
      MarkedByNearest (p.flattenFields c) authored.fieldNames := by
  obtain ⟨base, hbase, heq⟩ := d.finishedSchema_eq_placeFields p c
  rw [baseSchema, hauthored, Option.getD_some] at hbase
  have hnames : authored.fieldNames = base.fieldNames := by
    rw [Schema.fieldNames, Schema.fieldNames, hbase]
  rw [heq, hnames]
  exact base.typedByNearest_placeFields_iff p c

theorem typedByNearest_finishedSchema_iff (d : Declaration) (p : ClassPath) (c : HostType) :
    (d.finishedSchema p c).TypedByNearest (p.flattenFields c) d.authoredNames ↔
      d.schema = none ∨ MarkedByNearest (p.flattenFields c) d.authoredNames := by
  cases hschema : d.schema with
  | none => simp [authoredNames, hschema, typedByNearest_of_built hschema p c]
  | some authored => simp [authoredNames, hschema, typedByNearest_of_authored_iff hschema p c]

end Declaration

-- ═══════════════════════════════════════════════════════════════════════
-- In a session
-- ═══════════════════════════════════════════════════════════════════════

namespace Session

/-- Past the cache, the definition is laid out on what the candidate has. -/
theorem schema_resolve (p : ClassPath) (hplain : c.isPlainValue = false)
    (hnone : s.cached c.name = none) :
    ∃ h, (s.resolve p c).declaration = some h ∧
      ((s.resolve p c).session.store.get h).schema = some ((s.candidate c).finishedSchema p c) := by
  obtain ⟨t, h, heq, hget, -⟩ := resolve_of_uncached p hplain hnone
  refine ⟨h, congrArg Outcome.declaration heq, ?_⟩
  rw [heq, get_settle, if_pos rfl, schema_settled, hget]

/-- Once a type is resolved past the cache, every field that its declaration did not have
    before is of the type of the nearest host field of its name, exactly when the
    definition was built or no further name is first marked on a field of another type. -/
theorem typedByNearest_resolve_iff (hplain : c.isPlainValue = false)
    (hnone : s.cached c.name = none) (p : ClassPath) :
    ∃ h d, (s.resolve p c).declaration = some h ∧
      ((s.resolve p c).session.store.get h).schema = some d ∧
      (d.TypedByNearest (p.flattenFields c) (s.candidate c).authoredNames ↔
        (s.candidate c).schema = none ∨
          MarkedByNearest (p.flattenFields c) (s.candidate c).authoredNames) := by
  obtain ⟨h, hdecl, hschema⟩ := schema_resolve p hplain hnone
  exact ⟨h, _, hdecl, hschema, Declaration.typedByNearest_finishedSchema_iff _ p c⟩

/-- A meter has a value at the first position. -/
def meter : HostType :=
  { name := ⟨"p.Meter"⟩, fields := [{ name := "value", type := "double", position := some 0 }] }

/-- A level is a meter. It has a value of its own, which is of another type and asks for
    no position. -/
def level : HostType :=
  { name := ⟨"p.Level"⟩, superclass := some ⟨"p.Meter"⟩,
    fields := [{ name := "value", type := "int" }] }

def meters : ClassPath :=
  .ofList [level, meter]

/-- The declaration of a type of which rule source knows the unit. -/
def withUnit (name : TypeName) : Declaration :=
  { Declaration.declared name with
    schema := some { className := name.text, fields := [{ name := "unit", type := "text" }] } }

/-- A session in which both types are declared. -/
def workshop : Session :=
  (start .standard).run
    [.author (withUnit level.name), .declare ⟨4⟩, .author (withUnit meter.name), .declare ⟨5⟩]

private theorem flattenFields_meter : meters.flattenFields meter = meter.fields :=
  ClassPath.flattenFields_of_bare rfl

private theorem flattenFields_level :
    meters.flattenFields level = level.fields ++ meter.fields :=
  ClassPath.flattenFields_of_last rfl (by decide) (by decide) rfl

/-- The meter has one value, and its definition gets it as it is. -/
theorem typedByNearest_resolve_meter :
    meter.isPlainValue = false ∧ workshop.cached meter.name = none ∧
      ∃ h d, (workshop.resolve meters meter).declaration = some h ∧
        ((workshop.resolve meters meter).session.store.get h).schema = some d ∧
        d.TypedByNearest meter.fields ["unit"] := by
  have hnone : workshop.cached meter.name = none := by decide
  refine ⟨by decide, hnone, ?_⟩
  obtain ⟨h, d, hdecl, hschema, hiff⟩ := typedByNearest_resolve_iff (by decide) hnone meters
  have hnames : (workshop.candidate meter).authoredNames = ["unit"] := by decide
  rw [flattenFields_meter, hnames] at hiff
  refine ⟨h, d, hdecl, hschema, hiff.2 (Or.inr (markedByNearest_of_types ?_))⟩
  decide

/-- The level gets its value from the meter, as the marker there is the only one. -/
theorem level_typed_by_meter :
    level.isPlainValue = false ∧ workshop.cached level.name = none ∧
      ∃ h d, (workshop.resolve meters level).declaration = some h ∧
        ((workshop.resolve meters level).session.store.get h).schema = some d ∧
        ¬d.TypedByNearest (meters.flattenFields level) (workshop.candidate level).authoredNames := by
  have hnone : workshop.cached level.name = none := by decide
  refine ⟨by decide, hnone, ?_⟩
  obtain ⟨h, hdecl, hschema⟩ := schema_resolve meters (by decide) hnone
  refine ⟨h, _, hdecl, hschema, ?_⟩
  have hnames : (workshop.candidate level).authoredNames = ["unit"] := by decide
  rw [Declaration.typedByNearest_finishedSchema_iff, hnames, flattenFields_level]
  rintro (hbuilt | hmarked)
  · exact absurd hbuilt (by decide)
  · exact absurd (hmarked "value" (by decide) "double" (by decide)) (by decide)

end Session

end FactTypes
