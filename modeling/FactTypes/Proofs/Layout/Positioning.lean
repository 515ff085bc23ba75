import Mathlib.Data.List.Induction
import FactTypes.Proofs.Layout.Acceptance

/-!
# A schema with its positions

Writing the accepted markers into a schema moves fields about: each one takes its slot
from whoever held it, and a name with several markers moves more than once. What comes
of it in the end is told at once. A field of the schema keeps its place, its name and
its type; only its index may change. Behind them stand the fields that the schema
lacked.
-/

namespace FactTypes

/-- The slot of the last marker of a name. -/
def lastSlot? (as : List Placement) (name : String) : Option Nat :=
  (as.filter fun a => a.field = name).getLast?.map Placement.slot

/-- The first element of each key, in their order. -/
def firstOfEach {α : Type} (key : α → String) : List α → List α
  | [] => []
  | a :: rest => a :: (firstOfEach key rest).filter fun b => key b ≠ key a

/-- A field once the slots are written: its index is the last slot of its name; where
    there is none it keeps its index, unless that is one of the slots. -/
def Field.placedBy (as : List Placement) (f : Field) : Field :=
  { f with
    index := (lastSlot? as f.name).or (f.index.filter fun i => i ∉ as.map Placement.slot) }

/-- The fields that are added to a schema with the given names: one for each further
    name, with the type that stands at its first marker. -/
def newcomers (as : List Placement) (names : List String) : List Field :=
  ((firstOfEach Placement.field as).filter fun a => a.field ∉ names).map fun a =>
    { name := a.field, type := a.type, index := lastSlot? as a.field }

/-- The schema once all slots are written: its fields in their order, and the newcomers
    behind them. -/
def Schema.positioned (s : Schema) (as : List Placement) : Schema :=
  { s with fields := s.fields.map (Field.placedBy as) ++ newcomers as s.fieldNames }

/-- A field once one slot is written. -/
def Field.place (a : Placement) (f : Field) : Field :=
  if f.name = a.field then f.fixedAt a.slot else f.yield a.slot a.field

variable {as : List Placement} {a b : Placement} {f : Field} {name : String} {slot : Nat}
  {names : List String} {s : Schema} {p : ClassPath} {c : HostType}

-- ═══════════════════════════════════════════════════════════════════════
-- One more marker
-- ═══════════════════════════════════════════════════════════════════════

theorem lastSlot?_concat (as : List Placement) (a : Placement) (name : String) :
    lastSlot? (as ++ [a]) name = if a.field = name then some a.slot else lastSlot? as name := by
  unfold lastSlot?
  by_cases hname : a.field = name <;> simp [List.filter_append, hname]

theorem mem_slots_of_lastSlot? (hslot : lastSlot? as name = some slot) :
    slot ∈ as.map Placement.slot := by
  obtain ⟨a, ha, rfl⟩ := Option.map_eq_some_iff.1 hslot
  exact List.mem_map_of_mem (List.mem_of_mem_filter (List.mem_of_getLast? ha))

/-- A name has a last slot exactly when it has a marker. -/
theorem lastSlot?_eq_none_iff : lastSlot? as name = none ↔ name ∉ as.map Placement.field := by
  simp [lastSlot?]

theorem firstOfEach_concat {α : Type} (key : α → String) (as : List α) (a : α) :
    firstOfEach key (as ++ [a]) =
      firstOfEach key as ++ if key a ∈ as.map key then [] else [a] := by
  induction as with
  | nil => rfl
  | cons b rest ih =>
    rw [List.cons_append, firstOfEach, ih, firstOfEach, List.filter_append, List.cons_append]
    by_cases hfirst : key a = key b
    · simp [hfirst]
    · by_cases hrest : key a ∈ rest.map key <;> simp [hfirst, hrest]

/-- No key is lost. -/
theorem mem_map_firstOfEach {α : Type} (key : α → String) (as : List α) (name : String) :
    name ∈ (firstOfEach key as).map key ↔ name ∈ as.map key := by
  induction as with
  | nil => rfl
  | cons b rest ih =>
    rw [firstOfEach, List.map_cons, List.map_cons, List.mem_cons, List.mem_cons, ← ih,
      List.mem_map, List.mem_map]
    by_cases hname : name = key b
    · simp [hname]
    · apply or_congr_right
      constructor
      · rintro ⟨a, ha, rfl⟩
        exact ⟨a, List.mem_of_mem_filter ha, rfl⟩
      · rintro ⟨a, ha, rfl⟩
        exact ⟨a, List.mem_filter.2 ⟨ha, by simpa using hname⟩, rfl⟩

/-- An element is left exactly when it is there and none of its key stands before it. -/
theorem mem_firstOfEach_iff {α : Type} (key : α → String) (as : List α) (a : α) :
    a ∈ firstOfEach key as ↔ as.find? (fun b => key b = key a) = some a := by
  induction as with
  | nil => simp [firstOfEach]
  | cons b rest ih =>
    rw [firstOfEach, List.mem_cons, List.mem_filter, ih, List.find?_cons]
    by_cases hkey : key b = key a
    · simp [hkey, eq_comm]
    · have hne : a ≠ b := fun h => hkey (by rw [h])
      simp [hkey, hne, Ne.symm hkey]

theorem map_firstOfEach {α : Type} (key : α → String) (as : List α) :
    (firstOfEach key as).map key = firstOfEach id (as.map key) := by
  induction as with
  | nil => rfl
  | cons a rest ih =>
    rw [firstOfEach, List.map_cons, List.map_cons, firstOfEach, ← ih, List.filter_map]
    rfl

/-- Of more names, those are new that did not come up before. -/
theorem firstOfEach_append (as bs : List String) :
    firstOfEach id (as ++ bs) = firstOfEach id as ++ (firstOfEach id bs).filter fun b => b ∉ as := by
  induction bs using List.reverseRecOn with
  | nil => simp [firstOfEach]
  | append_singleton bs b ih =>
    rw [← List.append_assoc, firstOfEach_concat, ih, firstOfEach_concat, List.filter_append,
      List.append_assoc]
    congr 2
    by_cases hold : b ∈ as
    · simp [hold]
    · by_cases hnew : b ∈ bs <;> simp [hold, hnew]

theorem nodup_firstOfEach (as : List String) : (firstOfEach id as).Nodup := by
  induction as with
  | nil => exact List.nodup_nil
  | cons a rest ih =>
    exact List.nodup_cons.2 ⟨by simp, ih.sublist List.filter_sublist⟩

/-- Names that are lacking, each added once, leave all names different. -/
theorem nodup_append_firstOfEach {names : List String} (hnames : names.Nodup)
    (more : List String) :
    (names ++ (firstOfEach id more).filter fun name => name ∉ names).Nodup := by
  refine List.nodup_append.2 ⟨hnames, (nodup_firstOfEach more).sublist List.filter_sublist, ?_⟩
  rintro name hold _ hnew rfl
  exact absurd hold (by simpa using (List.mem_filter.1 hnew).2)

/-- A field is added when its name is lacking, with the type at the first marker of its
    name and at the slot of the last. -/
theorem mem_newcomers_iff :
    f ∈ newcomers as names ↔
      f.name ∉ names ∧ (as.find? fun a => a.field = f.name).map Placement.type = some f.type ∧
        f.index = lastSlot? as f.name := by
  simp only [newcomers, List.mem_map, List.mem_filter, mem_firstOfEach_iff, decide_not,
    Bool.not_eq_true', decide_eq_false_iff_not, Option.map_eq_some_iff]
  constructor
  · rintro ⟨a, ⟨hfirst, hlacking⟩, rfl⟩
    exact ⟨hlacking, ⟨a, hfirst, rfl⟩, rfl⟩
  · rintro ⟨hlacking, ⟨a, hfirst, htype⟩, hindex⟩
    have hname : a.field = f.name := by simpa using List.find?_some hfirst
    refine ⟨a, ⟨hname ▸ hfirst, hname ▸ hlacking⟩, ?_⟩
    rw [hname, htype, ← hindex]

theorem mem_map_name_newcomers (as : List Placement) (names : List String) (name : String) :
    name ∈ (newcomers as names).map Field.name ↔
      name ∉ names ∧ name ∈ as.map Placement.field := by
  rw [← mem_map_firstOfEach Placement.field, newcomers, List.map_map, List.mem_map, List.mem_map]
  constructor
  · rintro ⟨a, ha, rfl⟩
    obtain ⟨hfirst, hlacking⟩ := List.mem_filter.1 ha
    exact ⟨by simpa using hlacking, a, hfirst, rfl⟩
  · rintro ⟨hlacking, a, hfirst, rfl⟩
    exact ⟨a, List.mem_filter.2 ⟨hfirst, by simpa using hlacking⟩, rfl⟩

/-- Where no name is lacking, no field is added. -/
theorem newcomers_eq_nil (hnames : ∀ name ∈ as.map Placement.field, name ∈ names) :
    newcomers as names = [] := by
  rw [← List.map_eq_nil_iff, List.eq_nil_iff_forall_not_mem]
  intro name hname
  obtain ⟨hlacking, hmarked⟩ := (mem_map_name_newcomers as names name).1 hname
  exact hlacking (hnames name hmarked)

namespace Field

/-- A field of another name gives the index up and keeps any other. -/
theorem yield_of_ne {holder : String} (hne : f.name ≠ holder) (index : Nat) :
    f.yield index holder = { f with index := f.index.filter fun i => i ≠ index } := by
  obtain ⟨own, type, held⟩ := f
  change own ≠ holder at hne
  unfold yield
  cases held with
  | none => simp
  | some i => by_cases hi : i = index <;> simp [Option.filter_some, hi, hne]

@[simp] theorem name_place (a : Placement) (f : Field) : (f.place a).name = f.name := by
  unfold place
  split
  · exact f.name_fixedAt a.slot
  · exact f.name_yield a.slot a.field

@[simp] theorem name_placedBy (as : List Placement) (f : Field) :
    (f.placedBy as).name = f.name := rfl

/-- A slot that was not written yet moves a field on from where the others left it. -/
theorem place_placedBy (hnew : a.slot ∉ as.map Placement.slot) (f : Field) :
    (f.placedBy as).place a = f.placedBy (as ++ [a]) := by
  rw [place, name_placedBy]
  by_cases hname : f.name = a.field
  · rw [if_pos hname]
    simp [placedBy, fixedAt, lastSlot?_concat, hname]
  · have hold : lastSlot? (as ++ [a]) f.name = lastSlot? as f.name := by
      rw [lastSlot?_concat, if_neg (Ne.symm hname)]
    have hname' : (f.placedBy as).name ≠ a.field := hname
    rw [if_neg hname, yield_of_ne hname']
    simp only [placedBy, hold, Field.mk.injEq, true_and]
    cases hlast : lastSlot? as f.name with
    | none => simp [Option.filter_filter, not_or]
    | some slot =>
      have hne : slot ≠ a.slot := fun h => hnew (h ▸ mem_slots_of_lastSlot? hlast)
      simp [hne]

end Field

theorem newcomers_eq (as : List Placement) (names : List String) :
    newcomers as names =
      ((firstOfEach Placement.field as).filter fun a => a.field ∉ names).map fun a =>
        Field.placedBy as { name := a.field, type := a.type } := by
  simp [newcomers, Field.placedBy]

/-- Likewise for the fields that are added; the name itself is added unless the schema
    or an earlier marker has it. -/
theorem newcomers_concat (hnew : a.slot ∉ as.map Placement.slot) (names : List String) :
    newcomers (as ++ [a]) names =
      (newcomers as names).map (Field.place a) ++
        if a.field ∈ names ∨ a.field ∈ as.map Placement.field then []
        else [{ name := a.field, type := a.type, index := some a.slot }] := by
  rw [newcomers_eq, newcomers_eq, firstOfEach_concat, List.filter_append, List.map_append,
    List.map_map]
  congr 1
  · apply List.map_congr_left
    intro b _
    exact (Field.place_placedBy hnew _).symm
  · by_cases hold : a.field ∈ as.map Placement.field
    · simp [hold]
    · by_cases hname : a.field ∈ names
      · simp [hname, hold]
      · simp [hname, hold, Field.placedBy, lastSlot?_concat]

-- ═══════════════════════════════════════════════════════════════════════
-- Writing the slots
-- ═══════════════════════════════════════════════════════════════════════

namespace Schema

/-- Writing one slot moves the fields of the schema, and adds one if the name is
    lacking. -/
theorem place_eq (s : Schema) (a : Placement) :
    s.place a = { s with
      fields := s.fields.map (Field.place a) ++
        if a.field ∈ s.fieldNames then []
        else [{ name := a.field, type := a.type, index := some a.slot }] } := by
  unfold place
  by_cases hmem : a.field ∈ s.fieldNames
  · have hfix : s.hasField a.field = true := hasField_iff.2 hmem
    have hmoved : ((s.release a.slot a.field).fields.map fun f =>
        if f.name = a.field then f.fixedAt a.slot else f) = s.fields.map (Field.place a) := by
      rw [release, List.map_map]
      apply List.map_congr_left
      intro f _
      by_cases hname : f.name = a.field
      · simp [Field.place, Field.fixedAt, hname]
      · simp [Field.place, hname]
    rw [fix?, if_pos hfix, if_pos hmem, List.append_nil, ← hmoved]
    rfl
  · have hfix : s.fix? a.field a.slot = none := fix?_eq_none_iff.2 hmem
    have hmoved : s.fields.map (fun f => f.yield a.slot a.field) =
        s.fields.map (Field.place a) := by
      apply List.map_congr_left
      intro f hf
      have hname : f.name ≠ a.field := fun h => hmem (h ▸ List.mem_map_of_mem hf)
      rw [Field.place, if_neg hname]
    have hlacking : ¬(s.release a.slot a.field).hasField a.field = true := by
      rw [hasField_iff, fieldNames_release]
      exact hmem
    rw [hfix, if_neg hmem, ← hmoved]
    simp only [addField, put, hlacking]
    rfl

theorem fieldNames_positioned (s : Schema) (as : List Placement) :
    (s.positioned as).fieldNames =
      s.fieldNames ++ (firstOfEach id (as.map Placement.field)).filter fun name =>
        name ∉ s.fieldNames := by
  have hold : (s.fields.map (Field.placedBy as)).map Field.name = s.fieldNames := by
    rw [List.map_map]
    rfl
  have hnew : (newcomers as s.fieldNames).map Field.name =
      (firstOfEach id (as.map Placement.field)).filter fun name => name ∉ s.fieldNames := by
    rw [← map_firstOfEach, List.filter_map, newcomers, List.map_map]
    rfl
  rw [← hnew, positioned, fieldNames, List.map_append, hold]

theorem mem_fieldNames_positioned :
    name ∈ (s.positioned as).fieldNames ↔ name ∈ s.fieldNames ∨ name ∈ as.map Placement.field := by
  rw [fieldNames_positioned, List.mem_append, List.mem_filter, ← map_firstOfEach,
    mem_map_firstOfEach]
  by_cases hname : name ∈ s.fieldNames <;> simp [hname]

@[simp] theorem positioned_nil (s : Schema) : s.positioned [] = s := by
  have hself : s.fields.map (Field.placedBy []) = s.fields := by
    apply List.map_id''
    rintro ⟨name, type, index⟩
    cases index <;> rfl
  simp [positioned, hself, newcomers, firstOfEach]

/-- One more slot, which was not written yet. -/
theorem place_positioned (hnew : a.slot ∉ as.map Placement.slot) (s : Schema) :
    (s.positioned as).place a = s.positioned (as ++ [a]) := by
  have hmoved : (s.positioned as).fields.map (Field.place a) =
      s.fields.map (Field.placedBy (as ++ [a])) ++
        (newcomers as s.fieldNames).map (Field.place a) := by
    simp only [positioned, List.map_append, List.map_map, Function.comp_def,
      Field.place_placedBy hnew]
  rw [place_eq, hmoved]
  simp only [mem_fieldNames_positioned]
  rw [List.append_assoc, ← newcomers_concat hnew]
  rfl

/-- All slots, none of them written twice. -/
theorem foldl_place_eq (s : Schema) (hslots : (as.map Placement.slot).Nodup) :
    as.foldl place s = s.positioned as := by
  induction as using List.reverseRecOn with
  | nil => simp
  | append_singleton as a ih =>
    rw [List.map_append, List.nodup_append] at hslots
    obtain ⟨hrest, -, hapart⟩ := hslots
    have hnew : a.slot ∉ as.map Placement.slot := fun h => hapart _ h a.slot (by simp) rfl
    rw [List.foldl_append, ih hrest, List.foldl_cons, List.foldl_nil, place_positioned hnew]

theorem placeFields_eq (s : Schema) (p : ClassPath) (c : HostType) :
    s.placeFields p c = s.positioned (acceptances (p.flattenFields c)) := by
  rw [placeFields, p.placements_eq c]
  exact s.foldl_place_eq (nodup_slot_acceptances _)

end Schema

/-- What becomes of the position markers of a host type, for every schema. There is one
    fault for each marker that is not accepted, in the order of the fields. The fields
    of the schema stay in their order with their names and types, and the further names
    of accepted markers come behind them; the index of a name with accepted markers is
    the slot of the last of them, and any other field keeps its index unless it is an
    accepted slot. Nothing else in the schema changes. -/
theorem placeFields_outcome (s : Schema) (p : ClassPath) (c : HostType) :
    p.positionFaults c = refusals (p.flattenFields c) c.name.text ∧
      s.placeFields p c =
        { s with
          fields := s.fields.map (Field.placedBy (acceptances (p.flattenFields c))) ++
            newcomers (acceptances (p.flattenFields c)) s.fieldNames } :=
  ⟨p.positionFaults_eq c, s.placeFields_eq p c⟩

/-- The identifier is at the later of its two slots, and nobody at the other. -/
example :
    (Schema.positioned { fields := [⟨"total", "int", some 1⟩, ⟨"id", "int", none⟩] }
      (acceptances
        [⟨"id", "int", some 1⟩, ⟨"note", "text", some 0⟩, ⟨"id", "int", some 2⟩])).fields =
      [⟨"total", "int", none⟩, ⟨"id", "int", some 2⟩, ⟨"note", "text", some 0⟩] := by
  decide

end FactTypes
