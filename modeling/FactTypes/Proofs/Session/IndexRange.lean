import FactTypes.Proofs.Layout.Populating
import FactTypes.Proofs.Layout.Records
import FactTypes.Proofs.Session.Resolution

/-!
# Indices of a definition that is built

A declaration without a structural definition gets that of its host type. It has one
field for each name, but the slots are counted on the flattened fields, where a
shadowed field counts beside the one that shadows it. So an index may lie beyond the
last field; as long as no field is shadowed, none does.
-/

namespace FactTypes

/-- Whether every field that has an index has one below the number of fields. -/
def Schema.IndicesInRange (s : Schema) : Prop :=
  ∀ f ∈ s.fields, ∀ index, f.index = some index → index < s.fieldCount

/-- Whether the last accepted slot of every field name is below the number of names that
    the flattened fields of a type have. -/
def ClassPath.SlotsInRange (p : ClassPath) (c : HostType) : Prop :=
  ∀ name slot, lastSlot? (acceptances (p.flattenFields c)) name = some slot →
    slot < (nearestFields (p.flattenFields c)).length

/-- Whether resolving a type builds the structural definition of its declaration: a new
    declaration is derived, or the one that is found has none. -/
def Session.Builds (s : Session) (c : HostType) : Prop :=
  c.isPlainValue = false ∧ (s.provenance c.name = .fresh ∨
    ∃ h, s.provenance c.name = .found h ∧ (s.store.get h).schema = none)

variable {s : Session} {p : ClassPath} {c : HostType} {d : Declaration} {h : Handle}
  {fields : List HostField} {name : String}

-- ═══════════════════════════════════════════════════════════════════════
-- Accepted markers
-- ═══════════════════════════════════════════════════════════════════════

/-- An accepted marker is on a field that is there. -/
theorem mem_map_name_of_mem_acceptances
    (hname : name ∈ (acceptances fields).map Placement.field) :
    name ∈ fields.map HostField.name := by
  obtain ⟨a, ha, rfl⟩ := List.mem_map.1 hname
  obtain ⟨place, f, hf, haccepted⟩ := mem_acceptances_iff.1 ha
  obtain ⟨-, -, hfield, -⟩ := acceptance?_eq_some_iff.1 haccepted
  exact List.mem_map.2 ⟨f, List.mem_of_getElem? hf, hfield.symm⟩

/-- As long as no field is shadowed, every slot is below the number of names. -/
theorem ClassPath.slotsInRange_of_nodup
    (hnodup : ((p.flattenFields c).map HostField.name).Nodup) : p.SlotsInRange c := by
  intro name slot hslot
  obtain ⟨a, ha, rfl⟩ := List.mem_map.1 (mem_slots_of_lastSlot? hslot)
  obtain ⟨place, f, -, haccepted⟩ := mem_acceptances_iff.1 ha
  obtain ⟨-, ⟨⟨-, hlt⟩, -⟩, -, -⟩ := acceptance?_eq_some_iff.1 haccepted
  rw [nearestFields_of_nodup hnodup]
  omega

-- ═══════════════════════════════════════════════════════════════════════
-- The definition that is built
-- ═══════════════════════════════════════════════════════════════════════

namespace Schema

/-- A type has the nearest field of each name by itself, and none at an index. -/
theorem fields_ofHostType (p : ClassPath) (c : HostType) :
    (ofHostType p c).fields = (nearestFields (p.flattenFields c)).map HostField.toField := by
  rw [ofHostType, populate_eq]
  exact List.filter_true _

/-- The records of the methods leave the fields alone. -/
theorem fields_recordMethods (s : Schema) (c : HostType) :
    (s.recordMethods c).fields = s.fields := by
  rw [recordMethods_eq]

/-- With the slots written into it, each field is at the last slot of its name, and
    nothing is added. -/
theorem fields_placeFields_of_nearest {s : Schema}
    (hfields : s.fields = (nearestFields (p.flattenFields c)).map HostField.toField) :
    (s.placeFields p c).fields = (nearestFields (p.flattenFields c)).map fun f =>
      { name := f.name, type := f.type,
        index := lastSlot? (acceptances (p.flattenFields c)) f.name } := by
  have hnames : s.fieldNames = (nearestFields (p.flattenFields c)).map HostField.name := by
    rw [fieldNames, hfields, List.map_map]
    rfl
  have hnone : newcomers (acceptances (p.flattenFields c)) s.fieldNames = [] := by
    refine newcomers_eq_nil fun name hmarked => ?_
    rw [hnames, mem_map_name_nearestFields]
    exact mem_map_name_of_mem_acceptances hmarked
  rw [placeFields_eq, positioned, hnone, List.append_nil, hfields, List.map_map]
  apply List.map_congr_left
  intro f _
  simp [HostField.toField, Field.placedBy]

end Schema

namespace Declaration

/-- The slots are written into a definition that has the fields of the one to lay out
    on. -/
theorem finishedSchema_eq_placeFields (d : Declaration) (p : ClassPath) (c : HostType) :
    ∃ base : Schema, base.fields = (d.baseSchema p c).fields ∧
      d.finishedSchema p c = base.placeFields p c := by
  rw [finishedSchema]
  split
  · exact ⟨_, Schema.fields_recordMethods _ c, rfl⟩
  · exact ⟨_, rfl, rfl⟩

/-- The fields of a definition that is built: the nearest of each name, at the last slot
    of that name. -/
theorem fields_finishedSchema (hnone : d.schema = none) (p : ClassPath) (c : HostType) :
    (d.finishedSchema p c).fields = (nearestFields (p.flattenFields c)).map fun f =>
      { name := f.name, type := f.type,
        index := lastSlot? (acceptances (p.flattenFields c)) f.name } := by
  obtain ⟨base, hbase, heq⟩ := d.finishedSchema_eq_placeFields p c
  rw [baseSchema, hnone, Option.getD_none, Schema.fields_ofHostType] at hbase
  rw [heq, Schema.fields_placeFields_of_nearest hbase]

/-- The indices of a definition that is built are in range exactly when the slots are. -/
theorem indicesInRange_finishedSchema_iff (hnone : d.schema = none) (p : ClassPath)
    (c : HostType) : (d.finishedSchema p c).IndicesInRange ↔ p.SlotsInRange c := by
  have hfields := fields_finishedSchema hnone p c
  have hcount : (d.finishedSchema p c).fieldCount = (nearestFields (p.flattenFields c)).length := by
    rw [Schema.fieldCount, hfields, List.length_map]
  rw [Schema.IndicesInRange, ClassPath.SlotsInRange, hcount, hfields, List.forall_mem_map]
  constructor
  · intro hrange name slot hslot
    have hmarked : name ∈ (acceptances (p.flattenFields c)).map Placement.field := by
      by_contra hnot
      rw [lastSlot?_eq_none_iff.2 hnot] at hslot
      cases hslot
    obtain ⟨f, hf, rfl⟩ := List.mem_map.1
      ((mem_map_name_nearestFields _ name).2 (mem_map_name_of_mem_acceptances hmarked))
    exact hrange f hf slot hslot
  · intro hrange f _ slot hslot
    exact hrange f.name slot hslot

theorem schema_ofHostType (policy : ReactivityPolicy) (c : HostType) :
    (ofHostType policy c).schema = none := by
  rw [ofHostType]
  split <;> rfl

end Declaration

-- ═══════════════════════════════════════════════════════════════════════
-- Building it in a session
-- ═══════════════════════════════════════════════════════════════════════

namespace Session

theorem schema_settled (s : Session) (p : ClassPath) (c : HostType) (h : Handle) :
    (s.settled p c h).schema = some ((s.store.get h).finishedSchema p c) := by
  rw [settled]
  split <;> rfl

/-- A definition that is built is laid out on a declaration that has none. -/
theorem exists_built (hb : s.Builds c) (p : ClassPath) :
    ∃ h, ∃ d : Declaration, (s.resolve p c).declaration = some h ∧ d.schema = none ∧
      ((s.resolve p c).session.store.get h).schema = some (d.finishedSchema p c) := by
  obtain ⟨hplain, hfresh | ⟨h, hfound, hnone⟩⟩ := hb
  · obtain ⟨hdecl, hget⟩ := resolve_of_provenance_fresh (p := p) hplain hfresh
    refine ⟨_, _, hdecl, Declaration.schema_ofHostType s.policy c, ?_⟩
    rw [hget, derived, schema_settled, get_author_self]
  · refine ⟨h, _, declaration_resolve_of_known hplain (Or.inr hfound), hnone, ?_⟩
    rw [get_resolve_of_touches ⟨hplain, hfound⟩, schema_settled]

/-- Whenever the definition of a type is built, whichever way the type is asked for, its
    indices are in range exactly when the last slots of the type are. -/
theorem indicesInRange_built_iff (hb : s.Builds c) (p : ClassPath) (package : String) :
    ∃ h d, (s.resolve p c).declaration = some h ∧
      (s.resolveAndRegister p c package).declaration = some h ∧
      ((s.resolve p c).session.store.get h).schema = some d ∧
      ((s.resolveAndRegister p c package).session.store.get h).schema = some d ∧
      (d.IndicesInRange ↔ p.SlotsInRange c) := by
  obtain ⟨h, d, hdecl, hnone, hschema⟩ := exists_built hb p
  refine ⟨h, d.finishedSchema p c, hdecl, ?_, hschema, ?_,
    Declaration.indicesInRange_finishedSchema_iff hnone p c⟩
  · rw [declaration_resolveAndRegister, hdecl]
  · rw [store_resolveAndRegister, hschema]

/-- A type with one field, without a position. -/
def probe : HostType :=
  { name := ⟨"p.Probe"⟩, fields := [{ name := "value", type := "double" }] }

/-- A subtype of it whose field has another name and asks for the second position. -/
def dial : HostType :=
  { name := ⟨"p.Dial"⟩, superclass := some ⟨"p.Probe"⟩,
    fields := [{ name := "unit", type := "text", position := some 1 }] }

def dials : ClassPath :=
  .ofList [dial, probe]

private theorem flattenFields_dial : dials.flattenFields dial = dial.fields ++ probe.fields :=
  ClassPath.flattenFields_of_last rfl (by decide) (by decide) rfl

/-- The dial gets two fields, and the one with the marker is at the second position. -/
theorem indicesInRange_built_dial :
    (start .standard).Builds dial ∧
      ∃ h d, ((start .standard).resolve dials dial).declaration = some h ∧
        ((start .standard).resolveAndRegister dials dial "p").declaration = some h ∧
        (((start .standard).resolve dials dial).session.store.get h).schema = some d ∧
        (((start .standard).resolveAndRegister dials dial "p").session.store.get h).schema =
          some d ∧
        (∃ f ∈ d.fields, f.index = some 1) ∧ d.IndicesInRange := by
  have hbuilds : (start .standard).Builds dial := ⟨by decide, Or.inl (by decide)⟩
  obtain ⟨h, d, hdecl, hregistered, hschema, hsame, hrange⟩ :=
    indicesInRange_built_iff hbuilds dials "p"
  have hindex : ∃ f ∈ d.fields, f.index = some 1 := by
    obtain ⟨h', base, hdecl', hnone, hbuilt⟩ := exists_built hbuilds dials
    obtain rfl : h' = h := Option.some.inj (hdecl'.symm.trans hdecl)
    obtain rfl : base.finishedSchema dials dial = d := Option.some.inj (hbuilt.symm.trans hschema)
    rw [Declaration.fields_finishedSchema hnone, flattenFields_dial]
    decide
  have hnodup : ((dials.flattenFields dial).map HostField.name).Nodup := by
    rw [flattenFields_dial]
    decide
  exact ⟨hbuilds, h, d, hdecl, hregistered, hschema, hsame, hindex,
    hrange.2 (ClassPath.slotsInRange_of_nodup hnodup)⟩

/-- A subtype whose field has the same name and asks for the second position. -/
def sample : HostType :=
  { name := ⟨"p.Sample"⟩, superclass := some ⟨"p.Probe"⟩,
    fields := [{ name := "value", type := "double", position := some 1 }] }

def samples : ClassPath :=
  .ofList [sample, probe]

private theorem sample_builds : (start .standard).Builds sample :=
  ⟨by decide, Or.inl (by decide)⟩

private theorem flattenFields_sample :
    samples.flattenFields sample = sample.fields ++ probe.fields :=
  ClassPath.flattenFields_of_last rfl (by decide) (by decide) rfl

/-- The sample gets one field, and that is at the second position. -/
theorem sample_beyond_last :
    (start .standard).Builds sample ∧
      ∃ h d, ((start .standard).resolve samples sample).declaration = some h ∧
        (((start .standard).resolve samples sample).session.store.get h).schema = some d ∧
        ¬d.IndicesInRange := by
  obtain ⟨h, d, hdecl, hnone, hschema⟩ := exists_built sample_builds samples
  refine ⟨sample_builds, h, _, hdecl, hschema, ?_⟩
  rw [Declaration.indicesInRange_finishedSchema_iff hnone]
  intro hrange
  rw [ClassPath.SlotsInRange, flattenFields_sample] at hrange
  exact absurd (hrange "value" 1 (by decide)) (by decide)

end Session

end FactTypes
