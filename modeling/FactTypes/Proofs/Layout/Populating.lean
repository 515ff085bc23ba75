import Mathlib.Data.List.Nodup
import FactTypes.Layout.Population
import FactTypes.Proofs.Layout.Positioning

/-!
# A schema that is populated from a host type

Populating a schema lays the nearest fields of a host type over those that are there. A
field whose name the type has is replaced where it stands and loses its index, the others
stay as they are, and behind them come the names that were lacking. What is laid over a
schema twice is laid over it once.
-/

namespace FactTypes

/-- A field once others are laid over it: the first of its name takes its place. -/
def Field.replacedBy (fs : List Field) (f : Field) : Field :=
  (fs.find? fun g => g.name = f.name).getD f

/-- A schema with fields laid over it: those of its names take their places, and the others
    come behind. -/
def Schema.overlaid (s : Schema) (fs : List Field) : Schema :=
  { s with
    fields := s.fields.map (Field.replacedBy fs) ++ fs.filter fun f => f.name ∉ s.fieldNames }

variable {s t : Schema} {p : ClassPath} {c : HostType} {asTrait : Bool} {f : Field}
  {fs : List Field} {fields : List HostField} {name : String}

-- ═══════════════════════════════════════════════════════════════════════
-- The nearest fields
-- ═══════════════════════════════════════════════════════════════════════

/-- Where no key comes twice, all elements are left. -/
theorem firstOfEach_of_nodup {α : Type} {key : α → String} {as : List α}
    (hnodup : (as.map key).Nodup) : firstOfEach key as = as := by
  induction as with
  | nil => rfl
  | cons a rest ih =>
    rw [List.map_cons, List.nodup_cons] at hnodup
    rw [firstOfEach, ih hnodup.2, List.filter_eq_self.2]
    intro b hb
    simp only [decide_not, Bool.not_eq_eq_eq_not, Bool.not_true, decide_eq_false_iff_not]
    exact fun heq => hnodup.1 (heq ▸ List.mem_map_of_mem hb)

theorem nearestFields_eq (fields : List HostField) :
    nearestFields fields = firstOfEach HostField.name fields := by
  induction fields with
  | nil => rfl
  | cons f rest ih => rw [nearestFields, firstOfEach, ih]

/-- A field is among the nearest exactly when it is there and none of its name
    stands before it. -/
theorem mem_nearestFields_iff {f : HostField} :
    f ∈ nearestFields fields ↔ fields.find? (fun g => g.name = f.name) = some f := by
  rw [nearestFields_eq, mem_firstOfEach_iff]

/-- Every name is among the nearest fields. -/
theorem mem_map_name_nearestFields (fields : List HostField) (name : String) :
    name ∈ (nearestFields fields).map HostField.name ↔ name ∈ fields.map HostField.name := by
  rw [nearestFields_eq, mem_map_firstOfEach]

/-- Where no field is shadowed, all of them are the nearest. -/
theorem nearestFields_of_nodup (hnodup : (fields.map HostField.name).Nodup) :
    nearestFields fields = fields := by
  rw [nearestFields_eq, firstOfEach_of_nodup hnodup]

/-- The fields that are laid over a schema. -/
theorem map_name_map_toField (fields : List HostField) :
    (fields.map HostField.toField).map Field.name = fields.map HostField.name := by
  rw [List.map_map]
  rfl

theorem mem_map_toField_nearestFields (hf : f ∈ (nearestFields fields).map HostField.toField) :
    (fields.find? fun g => g.name = f.name).map HostField.type = some f.type ∧ f.index = none := by
  obtain ⟨g, hg, rfl⟩ := List.mem_map.1 hf
  have hfirst : fields.find? (fun h => h.name = g.name) = some g := mem_nearestFields_iff.1 hg
  exact ⟨congrArg (Option.map HostField.type) hfirst, rfl⟩

-- ═══════════════════════════════════════════════════════════════════════
-- Fields laid over a schema
-- ═══════════════════════════════════════════════════════════════════════

namespace Field

@[simp] theorem name_replacedBy (fs : List Field) (f : Field) : (f.replacedBy fs).name = f.name := by
  unfold replacedBy
  cases hfound : fs.find? fun g => g.name = f.name with
  | none => rfl
  | some g => simpa using List.find?_some hfound

/-- A field of another name than all of them stays. -/
theorem replacedBy_of_not_mem (hname : f.name ∉ fs.map Field.name) : f.replacedBy fs = f := by
  have hnone : fs.find? (fun g => g.name = f.name) = none := by
    rw [List.find?_eq_none]
    intro g hg heq
    exact hname (List.mem_map.2 ⟨g, hg, by simpa using heq⟩)
  rw [replacedBy, hnone, Option.getD_none]

theorem replacedBy_mem (hname : f.name ∈ fs.map Field.name) : f.replacedBy fs ∈ fs := by
  obtain ⟨g, hg, hsame⟩ := List.mem_map.1 hname
  have hsome : (fs.find? fun h => h.name = f.name).isSome = true :=
    List.find?_isSome.2 ⟨g, hg, by simpa using hsame⟩
  obtain ⟨h, hfound⟩ := Option.isSome_iff_exists.1 hsome
  rw [replacedBy, hfound]
  exact List.mem_of_find?_eq_some hfound

/-- Each of them replaces itself, if no two have one name. -/
theorem replacedBy_self (hnodup : (fs.map Field.name).Nodup) (hf : f ∈ fs) :
    f.replacedBy fs = f := by
  rw [← firstOfEach_of_nodup hnodup, mem_firstOfEach_iff] at hf
  rw [replacedBy, hf, Option.getD_some]

theorem replacedBy_replacedBy (fs : List Field) (f : Field) :
    (f.replacedBy fs).replacedBy fs = f.replacedBy fs := by
  by_cases hname : f.name ∈ fs.map Field.name
  · have hsame : (f.replacedBy fs).name = f.name := f.name_replacedBy fs
    rw [replacedBy, hsame]
    unfold replacedBy
    cases fs.find? fun g => g.name = f.name <;> rfl
  · rw [replacedBy_of_not_mem hname, replacedBy_of_not_mem hname]

end Field

namespace Schema

/-- A field replaces the one of its name, or comes behind the others. -/
theorem put_eq (s : Schema) (f : Field) :
    s.put f = { s with
      fields := s.fields.map (fun g => if g.name = f.name then f else g) ++
        if f.name ∈ s.fieldNames then [] else [f] } := by
  unfold put
  by_cases hmem : f.name ∈ s.fieldNames
  · rw [if_pos (hasField_iff.2 hmem), if_pos hmem, List.append_nil]
  · have hsame : s.fields.map (fun g => if g.name = f.name then f else g) = s.fields := by
      refine (List.map_congr_left fun g hg => if_neg fun heq => ?_).trans (List.map_id _)
      exact hmem (heq ▸ List.mem_map_of_mem hg)
    rw [if_neg fun h => hmem (hasField_iff.1 h), if_neg hmem, hsame]

theorem fieldNames_overlaid (s : Schema) (fs : List Field) :
    (s.overlaid fs).fieldNames =
      s.fieldNames ++ (fs.map Field.name).filter fun name => name ∉ s.fieldNames := by
  rw [overlaid, fieldNames, List.map_append, List.map_map, List.filter_map]
  congr 1
  exact List.map_congr_left fun f _ => f.name_replacedBy fs

theorem mem_fieldNames_overlaid :
    name ∈ (s.overlaid fs).fieldNames ↔ name ∈ s.fieldNames ∨ name ∈ fs.map Field.name := by
  rw [fieldNames_overlaid, List.mem_append, List.mem_filter]
  by_cases hname : name ∈ s.fieldNames <;> simp [hname]

theorem overlaid_nil (s : Schema) : s.overlaid [] = s := by
  have hself : s.fields.map (Field.replacedBy []) = s.fields := List.map_id'' (fun _ => rfl) _
  rw [overlaid, hself, List.filter_nil, List.append_nil]

/-- One field first, and the others over what it leaves. -/
theorem overlaid_cons (hnew : f.name ∉ fs.map Field.name) (s : Schema) :
    s.overlaid (f :: fs) = (s.put f).overlaid fs := by
  have hstays : f.replacedBy fs = f := Field.replacedBy_of_not_mem hnew
  have hold : s.fields.map (Field.replacedBy (f :: fs)) =
      (s.fields.map fun g => if g.name = f.name then f else g).map (Field.replacedBy fs) := by
    rw [List.map_map]
    apply List.map_congr_left
    intro g _
    by_cases hname : g.name = f.name
    · rw [Function.comp_apply, if_pos hname, hstays]
      simp [Field.replacedBy, hname]
    · rw [Function.comp_apply, if_neg hname]
      simp [Field.replacedBy, Ne.symm hname]
  have hlacking : fs.filter (fun g => g.name ∉ (s.put f).fieldNames) =
      fs.filter fun g => g.name ∉ s.fieldNames := by
    apply List.filter_congr
    intro g hg
    have hne : g.name ≠ f.name := fun heq => hnew (heq ▸ List.mem_map_of_mem hg)
    rw [fieldNames_put]
    split <;> simp [hne]
  rw [overlaid, overlaid, hlacking, put_eq, List.filter_cons, hold]
  by_cases hmem : f.name ∈ s.fieldNames <;> simp [hmem, hstays]

/-- Adding fields without an index, all of different names, lays them over the schema. -/
theorem foldl_addField_eq (hnodup : (fs.map Field.name).Nodup)
    (hindex : ∀ f ∈ fs, f.index = none) (s : Schema) : fs.foldl addField s = s.overlaid fs := by
  induction fs generalizing s with
  | nil => exact s.overlaid_nil.symm
  | cons f rest ih =>
    rw [List.map_cons, List.nodup_cons] at hnodup
    obtain ⟨hfirst, hrest⟩ := List.forall_mem_cons.1 hindex
    have hput : s.addField f = s.put f := by rw [addField, hfirst]
    rw [List.foldl_cons, hput, ih hnodup.2 hrest, overlaid_cons hnodup.1]

/-- What is laid over a schema twice is laid over it once. -/
theorem overlaid_overlaid (hnodup : (fs.map Field.name).Nodup) (s : Schema) :
    (s.overlaid fs).overlaid fs = s.overlaid fs := by
  have hstay : (s.overlaid fs).fields.map (Field.replacedBy fs) = (s.overlaid fs).fields := by
    refine (List.map_congr_left fun f hf => ?_).trans (List.map_id _)
    rcases List.mem_append.1 hf with hold | hnew
    · obtain ⟨g, -, rfl⟩ := List.mem_map.1 hold
      exact g.replacedBy_replacedBy fs
    · exact Field.replacedBy_self hnodup (List.mem_of_mem_filter hnew)
  have hnone : fs.filter (fun f : Field => f.name ∉ (s.overlaid fs).fieldNames) = [] := by
    rw [List.filter_eq_nil_iff]
    intro f hf
    simpa using mem_fieldNames_overlaid.2 (Or.inr (List.mem_map_of_mem hf))
  show { s.overlaid fs with
    fields := (s.overlaid fs).fields.map (Field.replacedBy fs) ++
      fs.filter fun f : Field => f.name ∉ (s.overlaid fs).fieldNames } = _
  rw [hstay, hnone, List.append_nil]

/-- A field of another name than all of them is at a place exactly when it was there. -/
theorem getElem?_overlaid_iff (hname : f.name ∉ fs.map Field.name) (s : Schema) (place : Nat) :
    (s.overlaid fs).fields[place]? = some f ↔ s.fields[place]? = some f := by
  rw [overlaid, List.getElem?_append, List.length_map]
  split
  · rw [List.getElem?_map, Option.map_eq_some_iff]
    constructor
    · rintro ⟨g, hg, rfl⟩
      rw [Field.name_replacedBy] at hname
      rw [Field.replacedBy_of_not_mem hname, hg]
    · intro hf
      exact ⟨f, hf, Field.replacedBy_of_not_mem hname⟩
  · next hbehind =>
    constructor
    · intro hf
      have hmem : f ∈ fs := List.mem_of_mem_filter (List.mem_of_getElem? hf)
      exact absurd (List.mem_map_of_mem hmem) hname
    · intro hf
      exact absurd (List.getElem?_eq_some_iff.1 hf).1 hbehind

-- ═══════════════════════════════════════════════════════════════════════
-- Populating a schema
-- ═══════════════════════════════════════════════════════════════════════

theorem nodup_map_toField_nearestFields (fields : List HostField) :
    (((nearestFields fields).map HostField.toField).map Field.name).Nodup := by
  rw [map_name_map_toField]
  exact nodup_map_name_nearestFields fields

/-- The nearest fields of the type are laid over the schema under its header. -/
theorem populate_eq (s : Schema) (p : ClassPath) (c : HostType) (asTrait : Bool) :
    s.populate p c asTrait =
      (s.describe c asTrait).overlaid
        ((nearestFields (p.flattenFields c)).map HostField.toField) :=
  foldl_addField_eq (nodup_map_toField_nearestFields _)
    (fun _ hf => (mem_map_toField_nearestFields hf).2) _

theorem populate_populate (s : Schema) (p : ClassPath) (c : HostType) (asTrait : Bool) :
    (s.populate p c asTrait).populate p c asTrait = s.populate p c asTrait := by
  have hheader : (s.populate p c asTrait).describe c asTrait = s.populate p c asTrait := by
    rw [populate_eq]
    rfl
  rw [populate_eq (s.populate p c asTrait), hheader, populate_eq,
    overlaid_overlaid (nodup_map_toField_nearestFields _)]

/-- The names that a schema has afterwards. -/
theorem fieldNames_populate (s : Schema) (p : ClassPath) (c : HostType) (asTrait : Bool) :
    (s.populate p c asTrait).fieldNames =
      s.fieldNames ++ (firstOfEach id ((p.flattenFields c).map HostField.name)).filter
        fun name => name ∉ s.fieldNames := by
  have hnames : (s.describe c asTrait).fieldNames = s.fieldNames := rfl
  rw [populate_eq, fieldNames_overlaid, hnames, map_name_map_toField, nearestFields_eq,
    map_firstOfEach]

/-- Everything that populating a schema `s` from a host type writes, when `t` is the schema
    afterwards. -/
structure PopulatedFrom (t s : Schema) (p : ClassPath) (c : HostType) (asTrait : Bool) :
    Prop where
  className : t.className = c.name.text
  superclass : t.superclass = c.effectiveSuperclass.map TypeName.text
  interfaces : t.interfaces = c.interfaces.map TypeName.text
  isTrait : t.isTrait = asTrait
  modified : t.modified = s.modified
  /-- The names keep their places, and the flattened names that were lacking come behind
      them, each in the place of its first occurrence. -/
  names : t.fieldNames = s.fieldNames ++
    (firstOfEach id ((p.flattenFields c).map HostField.name)).filter fun name =>
      name ∉ s.fieldNames
  distinct : t.fieldNames.Nodup
  /-- A field of a flattened name has the type of its first occurrence and no index. -/
  flattened : ∀ f ∈ t.fields, f.name ∈ (p.flattenFields c).map HostField.name →
    ((p.flattenFields c).find? fun g => g.name = f.name).map HostField.type = some f.type ∧
      f.index = none
  /-- The other fields are those that were there, each in its place. -/
  others : ∀ (place : Nat) (f : Field), f.name ∉ (p.flattenFields c).map HostField.name →
    (t.fields[place]? = some f ↔ s.fields[place]? = some f)
  /-- Populating the schema once more changes nothing. -/
  again : t.populate p c asTrait = t

end Schema

/-- Populating a schema whose field names are distinct, from any type on any class path. It
    has the header of the type, with the trait flag under which the type is described. Its
    fields keep their places, and the names of the flattened fields that it lacked come
    behind them, each once, in the order of their first occurrence. -/
theorem populate_outcome (s : Schema) (p : ClassPath) (c : HostType) (asTrait : Bool)
    (hnames : s.fieldNames.Nodup) : (s.populate p c asTrait).PopulatedFrom s p c asTrait := by
  have hsame (name : String) :
      name ∈ ((nearestFields (p.flattenFields c)).map HostField.toField).map Field.name ↔
        name ∈ (p.flattenFields c).map HostField.name := by
    rw [map_name_map_toField, mem_map_name_nearestFields]
  constructor
  case className => rw [Schema.populate_eq]; rfl
  case superclass => rw [Schema.populate_eq]; rfl
  case interfaces => rw [Schema.populate_eq]; rfl
  case isTrait => rw [Schema.populate_eq]; rfl
  case modified => rw [Schema.populate_eq]; rfl
  case names => exact s.fieldNames_populate p c asTrait
  case distinct =>
    rw [Schema.fieldNames_populate]
    exact nodup_append_firstOfEach hnames _
  case flattened =>
    intro f hf hname
    rw [Schema.populate_eq] at hf
    rcases List.mem_append.1 hf with hold | hnew
    · obtain ⟨g, -, rfl⟩ := List.mem_map.1 hold
      rw [Field.name_replacedBy] at hname
      exact mem_map_toField_nearestFields (Field.replacedBy_mem ((hsame _).2 hname))
    · exact mem_map_toField_nearestFields (List.mem_of_mem_filter hnew)
  case others =>
    intro place f hname
    rw [Schema.populate_eq]
    exact Schema.getElem?_overlaid_iff (mt (hsame f.name).1 hname) _ place
  case again => exact s.populate_populate p c asTrait

/-- An animal has a name and a number of legs. -/
def animal : HostType :=
  { name := ⟨"p.Animal"⟩,
    fields := [{ name := "name", type := "text" }, { name := "legs", type := "int" }] }

/-- A dog is an animal with a breed, and its name is of another type. -/
def dog : HostType :=
  { name := ⟨"p.Dog"⟩, superclass := some ⟨"p.Animal"⟩,
    fields := [{ name := "breed", type := "text" }, { name := "name", type := "label" }] }

/-- What rule source knows of a dog. -/
def authoredDog : Schema :=
  { fields := [⟨"legs", "long", some 0⟩, ⟨"owner", "text", some 1⟩] }

private theorem flattenFields_dog :
    (ClassPath.ofList [dog, animal]).flattenFields dog = dog.fields ++ animal.fields :=
  ClassPath.flattenFields_of_last rfl (by decide) (by decide) rfl

/-- The legs lose their index, the owner stays, and the name is that of the dog. -/
theorem populate_outcome_dog :
    authoredDog.fieldNames.Nodup ∧
      (authoredDog.populate (.ofList [dog, animal]) dog false).PopulatedFrom authoredDog
        (.ofList [dog, animal]) dog false ∧
      (authoredDog.populate (.ofList [dog, animal]) dog false).fields =
        [⟨"legs", "int", none⟩, ⟨"owner", "text", some 1⟩, ⟨"breed", "text", none⟩,
          ⟨"name", "label", none⟩] := by
  have hnames : authoredDog.fieldNames.Nodup := by decide
  refine ⟨hnames, populate_outcome _ _ _ _ hnames, ?_⟩
  rw [Schema.populate_eq, flattenFields_dog]
  decide

end FactTypes
