import FactTypes.Proofs.Layout.Populating
import FactTypes.Proofs.Lists

/-!
# Editing a schema

Whatever is done to a schema that starts empty, a name and an index tell its fields apart.
Names are added in the order in which they come up and never go away again. An index
changes hands: whoever is given it takes it from the field that had it, and no operation
gives it to two.
-/

namespace FactTypes

namespace Schema

/-- One operation on a schema. -/
inductive Edit where
  | add (field : Field)
  | fix (name : String) (index : Nat)
  | populate (p : ClassPath) (c : HostType) (asTrait : Bool)
  | place (p : ClassPath) (c : HostType)
  | className (name : String)
  | superclass (name : Option String)
  | interfaces (names : List String)
  | isTrait (on : Bool)
  | record (method : Signature) (properties : List String)

namespace Edit

/-- The schema after the operation. Fixing a field that is not there does nothing. -/
def apply (s : Schema) : Edit → Schema
  | add field => s.addField field
  | fix name index => (s.fix? name index).getD s
  | populate p c asTrait => s.populate p c asTrait
  | place p c => s.placeFields p c
  | className name => { s with className := name }
  | superclass name => { s with superclass := name }
  | interfaces names => { s with interfaces := names }
  | isTrait on => { s with isTrait := on }
  | record method properties => s.recordModified method properties

/-- The names that the operation brings up for fields, in their order. -/
def names : Edit → List String
  | add field => [field.name]
  | populate p c _ => (p.flattenFields c).map HostField.name
  | place p c => (acceptances (p.flattenFields c)).map Placement.field
  | _ => []

end Edit

/-- What operations make of the empty schema. -/
def edited (edits : List Edit) : Schema :=
  edits.foldl Edit.apply {}

/-- Whether a name and an index tell the fields apart: no name comes twice, and of two
    fields at one index the names are equal. -/
structure Distinct (s : Schema) : Prop where
  names : s.fieldNames.Nodup
  holder : ∀ f ∈ s.fields, ∀ g ∈ s.fields, ∀ index,
    f.index = some index → g.index = some index → f.name = g.name

/-- Whether at most the given index has a new holder, which is the field of the name: any
    other index is at a field of a name that had it before. -/
def HandsOver (s t : Schema) (name : String) (index? : Option Nat) : Prop :=
  ∀ f ∈ t.fields, ∀ index, f.index = some index →
    (f.name = name ∧ index? = some index) ∨
      (index? ≠ some index ∧ ∃ g ∈ s.fields, g.name = f.name ∧ g.index = some index)

/-- Whether a schema has become another one by fixing the field of a name at an index. -/
structure FixedAt (s t : Schema) (name : String) (index : Nat) : Prop where
  /-- Nothing but fields is written, and they keep their names and their order. -/
  rest : t = { s with fields := t.fields }
  names : t.fieldNames = s.fieldNames
  /-- The field of the name is at the index, and otherwise as it was. -/
  there : (t.fieldAt? index).map Field.name = some name
  own : t.field? name = (s.field? name).map fun f => f.fixedAt index
  /-- Any other field stays as it is, or gives the index up. -/
  others : ∀ f ∈ s.fields, f.name ≠ name → t.field? f.name = some f ∨
    (f.index = some index ∧ t.field? f.name = some { f with index := none })
  /-- At most one other field gives it up. -/
  few : (s.fields.filter fun f => f.name ≠ name ∧ t.field? f.name ≠ some f).length ≤ 1

end Schema

variable {s t : Schema} {a : Placement} {f g : Field} {name : String} {index : Nat}
  {index? : Option Nat} {edits : List Schema.Edit}

-- ═══════════════════════════════════════════════════════════════════════
-- The names and their order
-- ═══════════════════════════════════════════════════════════════════════

namespace Schema

/-- An operation adds the names that it brings up and that the schema lacks. -/
theorem fieldNames_apply (s : Schema) (e : Edit) :
    (e.apply s).fieldNames =
      s.fieldNames ++ (firstOfEach id e.names).filter fun name => name ∉ s.fieldNames := by
  have hkept (t : Schema) (ht : t.fieldNames = s.fieldNames) : t.fieldNames =
      s.fieldNames ++ (firstOfEach id ([] : List String)).filter fun name =>
        name ∉ s.fieldNames := by
    rw [ht, firstOfEach, List.filter_nil, List.append_nil]
  cases e with
  | add field =>
    show (s.addField field).fieldNames = _
    rw [fieldNames_addField]
    by_cases hmem : field.name ∈ s.fieldNames <;> simp [Edit.names, firstOfEach, hmem]
  | fix name index =>
    apply hkept
    show ((s.fix? name index).getD s).fieldNames = _
    cases hfix : s.fix? name index with
    | none => rfl
    | some t => exact fieldNames_fix? hfix
  | populate p c asTrait => exact s.fieldNames_populate p c asTrait
  | place p c =>
    show (s.placeFields p c).fieldNames = _
    rw [placeFields_eq]
    exact s.fieldNames_positioned _
  | className name => exact hkept _ rfl
  | superclass name => exact hkept _ rfl
  | interfaces names => exact hkept _ rfl
  | isTrait on => exact hkept _ rfl
  | record method properties => exact hkept _ rfl

theorem edited_concat (edits : List Edit) (e : Edit) :
    edited (edits ++ [e]) = e.apply (edited edits) := by
  rw [edited, List.foldl_append]
  rfl

/-- The fields stand in the order in which their names came up. -/
theorem fieldNames_edited (edits : List Edit) :
    (edited edits).fieldNames = firstOfEach id (edits.flatMap Edit.names) := by
  induction edits using List.reverseRecOn with
  | nil => rfl
  | append_singleton edits e ih =>
    rw [edited_concat, fieldNames_apply, ih, List.flatMap_append, List.flatMap_singleton,
      firstOfEach_append]
    congr 1
    apply List.filter_congr
    intro name _
    have hsame := mem_map_firstOfEach id (edits.flatMap Edit.names) name
    rw [List.map_id, List.map_id] at hsame
    exact decide_eq_decide.2 (not_congr hsame)

-- ═══════════════════════════════════════════════════════════════════════
-- Who holds an index
-- ═══════════════════════════════════════════════════════════════════════

theorem Distinct.eq_of_name (hs : s.Distinct) (hf : f ∈ s.fields) (hg : g ∈ s.fields)
    (hname : f.name = g.name) : f = g :=
  List.inj_on_of_nodup_map hs.names hf hg hname

theorem Distinct.eq_of_index (hs : s.Distinct) (hf : f ∈ s.fields) (hg : g ∈ s.fields)
    (hfindex : f.index = some index) (hgindex : g.index = some index) : f = g :=
  hs.eq_of_name hf hg (hs.holder f hf g hg index hfindex hgindex)

/-- An index that is handed over has one holder, and so has any other. -/
theorem Distinct.of_handsOver (hs : s.Distinct) (hnames : t.fieldNames.Nodup)
    (hhands : s.HandsOver t name index?) : t.Distinct := by
  refine ⟨hnames, fun f hf g hg index hfindex hgindex => ?_⟩
  rcases hhands f hf index hfindex with ⟨hfname, hnew⟩ | ⟨hold, f', hf', hfname, hfheld⟩
  · rcases hhands g hg index hgindex with ⟨hgname, -⟩ | ⟨hold, -⟩
    · rw [hfname, hgname]
    · exact absurd hnew hold
  · rcases hhands g hg index hgindex with ⟨-, hnew⟩ | ⟨-, g', hg', hgname, hgheld⟩
    · exact absurd hnew hold
    · rw [← hfname, ← hgname]
      exact hs.holder f' hf' g' hg' index hfheld hgheld

theorem index_yield_eq_some_iff {holder : String} {other : Nat} (hne : f.name ≠ holder) :
    (f.yield index holder).index = some other ↔ f.index = some other ∧ other ≠ index := by
  rw [Field.yield_of_ne hne, Option.filter_eq_some_iff]
  simp

theorem mem_fields_put : f ∈ (s.put g).fields ↔ f = g ∨ f ∈ s.fields ∧ f.name ≠ g.name := by
  rw [put_eq, List.mem_append, List.mem_map]
  constructor
  · rintro (⟨h, hh, rfl⟩ | hnew)
    · split
      · exact Or.inl rfl
      · next hne => exact Or.inr ⟨hh, hne⟩
    · split at hnew
      · cases hnew
      · exact Or.inl (List.mem_singleton.1 hnew)
  · rintro (rfl | ⟨hf, hne⟩)
    · by_cases hmem : f.name ∈ s.fieldNames
      · obtain ⟨h, hh, hname⟩ := List.mem_map.1 hmem
        exact Or.inl ⟨h, hh, if_pos hname⟩
      · exact Or.inr (by rw [if_neg hmem]; exact List.mem_singleton_self f)
    · exact Or.inl ⟨f, hf, if_neg hne⟩

/-- A field that is added takes its index from the others. -/
theorem handsOver_addField (s : Schema) (field : Field) :
    s.HandsOver (s.addField field) field.name field.index := by
  intro f hf other hother
  cases hindex : field.index with
  | none =>
    rw [addField, hindex] at hf
    rcases mem_fields_put.1 hf with rfl | ⟨hold, -⟩
    · cases hindex.symm.trans hother
    · exact Or.inr ⟨by simp, f, hold, rfl, hother⟩
  | some index =>
    rw [addField, hindex] at hf
    rcases mem_fields_put.1 hf with rfl | ⟨hold, hne⟩
    · exact Or.inl ⟨rfl, hindex.symm.trans hother⟩
    · obtain ⟨g, hg, rfl⟩ := List.mem_map.1 hold
      rw [Field.name_yield] at hne
      obtain ⟨hheld, hfree⟩ := (index_yield_eq_some_iff hne).1 hother
      exact Or.inr ⟨by simpa using hfree.symm, g, hg, (g.name_yield index field.name).symm, hheld⟩

/-- A slot that is written is taken from the others. -/
theorem handsOver_place (s : Schema) (a : Placement) :
    s.HandsOver (s.place a) a.field (some a.slot) := by
  intro f hf other hother
  rw [place_eq] at hf
  rcases List.mem_append.1 hf with hold | hnew
  · obtain ⟨g, hg, rfl⟩ := List.mem_map.1 hold
    by_cases hname : g.name = a.field
    · rw [Field.place, if_pos hname] at hother ⊢
      exact Or.inl ⟨hname, hother⟩
    · rw [Field.place, if_neg hname] at hother ⊢
      obtain ⟨hheld, hfree⟩ := (index_yield_eq_some_iff hname).1 hother
      exact Or.inr ⟨by simpa using hfree.symm, g, hg, (g.name_yield a.slot a.field).symm, hheld⟩
  · split at hnew
    · cases hnew
    · obtain rfl := List.mem_singleton.1 hnew
      exact Or.inl ⟨rfl, hother⟩

/-- Fields without an index take none. -/
theorem handsOver_overlaid {fs : List Field} (hindex : ∀ f ∈ fs, f.index = none) (s : Schema)
    (name : String) : s.HandsOver (s.overlaid fs) name none := by
  intro f hf other hother
  have hnot : f ∉ fs := fun hmem => by cases (hindex f hmem).symm.trans hother
  rcases List.mem_append.1 hf with hold | hnew
  · obtain ⟨g, hg, rfl⟩ := List.mem_map.1 hold
    have hname : g.name ∉ fs.map Field.name := fun hmem => hnot (Field.replacedBy_mem hmem)
    rw [Field.replacedBy_of_not_mem hname] at hother ⊢
    exact Or.inr ⟨by simp, g, hg, rfl, hother⟩
  · exact absurd (List.mem_of_mem_filter hnew) hnot

theorem nodup_fieldNames_apply (hs : s.Distinct) (e : Edit) : (e.apply s).fieldNames.Nodup := by
  rw [fieldNames_apply]
  exact nodup_append_firstOfEach hs.names _

/-- Fixing a field is writing its slot, whatever its type is taken for. -/
theorem fix?_eq_place (hmem : name ∈ s.fieldNames) (type : String) :
    s.fix? name index = some (s.place { field := name, type, slot := index }) := by
  obtain ⟨t, ht⟩ := Option.ne_none_iff_exists'.1 (mt fix?_eq_none_iff.1 (not_not.2 hmem))
  rw [place, ht]

theorem Distinct.place (hs : s.Distinct) (a : Placement) : (s.place a).Distinct := by
  refine hs.of_handsOver ?_ (s.handsOver_place a)
  have hold : (s.fields.map (Field.place a)).map Field.name = s.fieldNames := by
    rw [List.map_map]
    exact List.map_congr_left fun f _ => f.name_place a
  rw [place_eq, fieldNames, List.map_append, hold]
  split
  · simpa using hs.names
  · next hnew =>
    refine List.nodup_append.2 ⟨hs.names, List.nodup_singleton _, ?_⟩
    rintro name hname _ hlast rfl
    have hsame : name = a.field := List.mem_singleton.1 hlast
    exact hnew (hsame ▸ hname)

theorem Distinct.foldl_place (hs : s.Distinct) (as : List Placement) :
    (as.foldl Schema.place s).Distinct := by
  induction as generalizing s with
  | nil => exact hs
  | cons a rest ih => exact ih (hs.place a)

/-- An operation keeps the fields apart. -/
theorem Distinct.apply (hs : s.Distinct) (e : Edit) : (e.apply s).Distinct := by
  cases e with
  | add field =>
    exact hs.of_handsOver (nodup_fieldNames_apply hs (.add field)) (s.handsOver_addField field)
  | fix name index =>
    show ((s.fix? name index).getD s).Distinct
    by_cases hmem : name ∈ s.fieldNames
    · rw [fix?_eq_place hmem ""]
      exact hs.place _
    · rw [fix?_eq_none_iff.2 hmem]
      exact hs
  | populate p c asTrait =>
    have hhands : s.HandsOver (s.populate p c asTrait) "" none := by
      rw [populate_eq]
      exact handsOver_overlaid (fun _ hf => (mem_map_toField_nearestFields hf).2) _ _
    exact hs.of_handsOver (nodup_fieldNames_apply hs (.populate p c asTrait)) hhands
  | place p c => exact hs.foldl_place _
  | className name => exact ⟨hs.names, hs.holder⟩
  | superclass name => exact ⟨hs.names, hs.holder⟩
  | interfaces names => exact ⟨hs.names, hs.holder⟩
  | isTrait on => exact ⟨hs.names, hs.holder⟩
  | record method properties => exact ⟨hs.names, hs.holder⟩

theorem distinct_edited (edits : List Edit) : (edited edits).Distinct := by
  induction edits using List.reverseRecOn with
  | nil => exact ⟨List.nodup_nil, fun f hf => by cases hf⟩
  | append_singleton edits e ih => exact edited_concat edits e ▸ ih.apply e

theorem Distinct.field?_eq_some_iff (hs : s.Distinct) :
    s.field? name = some f ↔ f ∈ s.fields ∧ f.name = name := by
  rw [field?, find?_eq_some_iff_of_unique]
  · rw [decide_eq_true_iff]
  · intro f hf g hg hfname hgname
    rw [decide_eq_true_iff] at hfname hgname
    exact hs.eq_of_name hf hg (hfname.trans hgname.symm)

theorem Distinct.fieldAt?_eq_some_iff (hs : s.Distinct) :
    s.fieldAt? index = some f ↔ f ∈ s.fields ∧ f.index = some index := by
  rw [fieldAt?, find?_eq_some_iff_of_unique]
  · rw [decide_eq_true_iff]
  · intro f hf g hg hfindex hgindex
    rw [decide_eq_true_iff] at hfindex hgindex
    exact hs.eq_of_index hf hg hfindex hgindex

theorem Distinct.nodup_fields (hs : s.Distinct) : s.fields.Nodup :=
  hs.names.of_map

/-- No index is held twice. -/
theorem Distinct.nodup_indices (hs : s.Distinct) : (s.fields.filterMap Field.index).Nodup := by
  refine List.pairwise_filterMap.2 (hs.nodup_fields.imp_of_mem ?_)
  rintro f g hf hg hne index hfindex _ hgindex rfl
  exact hne (hs.eq_of_index hf hg hfindex hgindex)

-- ═══════════════════════════════════════════════════════════════════════
-- Fixing a field
-- ═══════════════════════════════════════════════════════════════════════

/-- What fixing a field does to a schema in which the fields are told apart. -/
theorem fixedAt_of_fix? (hs : s.Distinct) (hfix : s.fix? name index = some t) :
    s.FixedAt t name index := by
  have hmem : name ∈ s.fieldNames := by
    by_contra hlacking
    cases (fix?_eq_none_iff.2 hlacking).symm.trans hfix
  obtain rfl : s.place { field := name, type := "", slot := index } = t :=
    Option.some.inj ((fix?_eq_place hmem "").symm.trans hfix)
  generalize ha : ({ field := name, type := "", slot := index } : Placement) = a at hfix ⊢
  obtain ⟨rfl, rfl⟩ : a.field = name ∧ a.slot = index := ⟨ha ▸ rfl, ha ▸ rfl⟩
  have hwritten : s.place a = { s with fields := s.fields.map (Field.place a) } := by
    rw [place_eq, if_pos hmem, List.append_nil]
  have hfields : (s.place a).fields = s.fields.map (Field.place a) := by rw [hwritten]
  have hdistinct : (s.place a).Distinct := hs.place a
  -- each field is found where it was, as the slot has left it
  have hfound : ∀ f ∈ s.fields, (s.place a).field? f.name = some (f.place a) := by
    intro f hf
    refine hdistinct.field?_eq_some_iff.2 ⟨?_, f.name_place a⟩
    exact hfields ▸ List.mem_map_of_mem hf
  have hothers : ∀ f ∈ s.fields, f.name ≠ a.field → (s.place a).field? f.name = some f ∨
      (f.index = some a.slot ∧ (s.place a).field? f.name = some { f with index := none }) := by
    intro f hf hne
    rw [hfound f hf, Field.place, if_neg hne, Field.yield]
    split
    · next hheld => exact Or.inr ⟨hheld.1, rfl⟩
    · exact Or.inl rfl
  obtain ⟨own, hown, hname⟩ := List.mem_map.1 hmem
  have hfixed : own.place a = own.fixedAt a.slot := by rw [Field.place, if_pos hname]
  constructor
  case rest => rw [hwritten]
  case names => exact fieldNames_fix? hfix
  case there =>
    have hat : (s.place a).fieldAt? a.slot = some (own.fixedAt a.slot) := by
      refine hdistinct.fieldAt?_eq_some_iff.2 ⟨?_, rfl⟩
      exact hfixed ▸ hfields ▸ List.mem_map_of_mem hown
    rw [hat, Option.map_some, Field.name_fixedAt, hname]
  case own =>
    rw [← hname, hfound own hown, hs.field?_eq_some_iff.2 ⟨hown, rfl⟩, hfixed]
    rfl
  case others => exact hothers
  case few =>
    refine length_le_one_of_eq (hs.nodup_fields.sublist List.filter_sublist) ?_
    have hheld : ∀ f ∈ s.fields.filter fun f =>
        f.name ≠ a.field ∧ (s.place a).field? f.name ≠ some f,
        f ∈ s.fields ∧ f.index = some a.slot := by
      intro f hf
      obtain ⟨hf, hchanged⟩ := List.mem_filter.1 hf
      rw [decide_eq_true_iff] at hchanged
      rcases hothers f hf hchanged.1 with hsame | ⟨hindex, -⟩
      · exact absurd hsame hchanged.2
      · exact ⟨hf, hindex⟩
    intro f hf g hg
    exact hs.eq_of_index (hheld f hf).1 (hheld g hg).1 (hheld f hf).2 (hheld g hg).2

end Schema

/-- Whatever operations are done to the empty schema, its fields stand in the order in which
    their names came up; no name and no index comes twice, so that a name and an index find
    the one field that has it. Fixing a field of the schema puts it at the index and takes
    the index from one other field at most; where there is no field of the name, it fails
    and changes nothing. -/
theorem edited_distinct (edits : List Schema.Edit) :
    let s := Schema.edited edits
    s.fieldNames.Nodup ∧ (s.fields.filterMap Field.index).Nodup ∧
      s.fieldNames = firstOfEach id (edits.flatMap Schema.Edit.names) ∧
      (∀ name f, s.field? name = some f ↔ f ∈ s.fields ∧ f.name = name) ∧
      (∀ index f, s.fieldAt? index = some f ↔ f ∈ s.fields ∧ f.index = some index) ∧
      ∀ name index,
        (∀ t, s.fix? name index = some t →
          Schema.edited (edits ++ [.fix name index]) = t ∧ s.FixedAt t name index) ∧
        (s.fix? name index = none → Schema.edited (edits ++ [.fix name index]) = s) ∧
        (s.fix? name index = none ↔ name ∉ s.fieldNames) := by
  intro s
  have hs : s.Distinct := Schema.distinct_edited edits
  have hnext (name : String) (index : Nat) :
      Schema.edited (edits ++ [.fix name index]) = (s.fix? name index).getD s :=
    Schema.edited_concat edits _
  refine ⟨hs.names, hs.nodup_indices, Schema.fieldNames_edited edits,
    fun _ _ => hs.field?_eq_some_iff, fun _ _ => hs.fieldAt?_eq_some_iff, fun name index => ?_⟩
  refine ⟨fun t hfix => ⟨?_, Schema.fixedAt_of_fix? hs hfix⟩, fun hfix => ?_,
    Schema.fix?_eq_none_iff⟩
  · rw [hnext, hfix, Option.getD_some]
  · rw [hnext, hfix, Option.getD_none]

/-- The total gives its index up to the note, which keeps its place. -/
example :
    (Schema.edited [.add ⟨"total", "int", some 0⟩, .add ⟨"note", "text", none⟩,
      .fix "note" 0, .fix "ghost" 1]).fields =
      [⟨"total", "int", none⟩, ⟨"note", "text", some 0⟩] := by
  decide

end FactTypes
