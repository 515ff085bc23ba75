import Mathlib.Data.List.Nodup
import FactTypes.Layout.Structure
import FactTypes.Proofs.Layout.Positioning

/-!
# Positions that stand

An accepted marker gives its field a slot, and no other field takes that slot again.
The field itself may leave it: the flattened fields of a type hold a shadowed field
beside the one that shadows it, and when both carry an accepted marker the field ends
at the slot of the farther one. The nearer slot is then empty, and still counts as
taken.
-/

namespace FactTypes

/-- Whether the field at a slot is the one of the name. -/
def Schema.Holds (s : Schema) (name : String) (slot : Nat) : Prop :=
  ∃ f, s.fieldAt? slot = some f ∧ f.name = name

/-- Whether, with the positions of a host type written into a schema, every accepted
    marker has its field at its slot, and every slot that a fault calls taken is held by
    the field that was given it. -/
structure Schema.AcceptedStand (s : Schema) (p : ClassPath) (c : HostType) : Prop where
  stands : ∀ a ∈ acceptances (p.flattenFields c), (s.placeFields p c).Holds a.field a.slot
  taken : ∀ position name owner,
    .duplicatePosition position name owner ∈ p.positionFaults c →
      ∃ a ∈ acceptances (p.flattenFields c), (a.slot : Int) = position ∧
        (s.placeFields p c).Holds a.field a.slot

variable {s : Schema} {p : ClassPath} {c : HostType} {as before after : List Placement}
  {a : Placement} {f : Field} {name : String} {slot : Nat}

theorem exists_of_lastSlot? (hslot : lastSlot? as name = some slot) :
    ∃ a ∈ as, a.field = name ∧ a.slot = slot := by
  obtain ⟨a, ha, rfl⟩ := Option.map_eq_some_iff.1 hslot
  obtain ⟨hmem, hname⟩ := List.mem_filter.1 (List.mem_of_getLast? ha)
  exact ⟨a, hmem, by simpa using hname, rfl⟩

/-- A slot is the last of a name exactly when no later marker has that name. -/
theorem lastSlot?_eq_self_iff (hslots : (as.map Placement.slot).Nodup)
    (hsplit : as = before ++ a :: after) :
    lastSlot? as a.field = some a.slot ↔ ∀ b ∈ after, b.field ≠ a.field := by
  have hfilter : as.filter (fun b => b.field = a.field) =
      before.filter (fun b => b.field = a.field) ++
        a :: after.filter fun b => b.field = a.field := by
    simp [hsplit]
  rw [lastSlot?, hfilter]
  rcases List.eq_nil_or_concat (after.filter fun b => b.field = a.field) with
    hnil | ⟨front, b, hlast⟩
  · rw [hnil, List.getLast?_concat]
    simpa using List.filter_eq_nil_iff.1 hnil
  · rw [List.concat_eq_append] at hlast
    have hb : b ∈ after.filter fun b => b.field = a.field := by simp [hlast]
    obtain ⟨hmem, hname⟩ := List.mem_filter.1 hb
    have hne : b.slot ≠ a.slot := by
      rw [hsplit, List.map_append, List.map_cons] at hslots
      have hnot := (List.nodup_middle.1 hslots).notMem
      rw [List.mem_append, not_or] at hnot
      exact fun h => hnot.2 (h ▸ List.mem_map_of_mem hmem)
    rw [hlast, ← List.cons_append, ← List.append_assoc, List.getLast?_concat]
    constructor
    · intro hsame
      exact absurd (Option.some.inj hsame) hne
    · intro hnone
      exact absurd (by simpa using hname) (hnone b hmem)

/-- Every marker is the last of its name exactly when no name has two. -/
theorem forall_lastSlot?_eq_self_iff (hslots : (as.map Placement.slot).Nodup) :
    (∀ a ∈ as, lastSlot? as a.field = some a.slot) ↔ (as.map Placement.field).Nodup := by
  have hnodup : as.Nodup := List.Nodup.of_map _ hslots
  rw [List.nodup_map_iff_inj_on hnodup]
  constructor
  · intro hlast a ha b hb hname
    have hsame : some a.slot = some b.slot := by rw [← hlast a ha, ← hlast b hb, hname]
    exact List.inj_on_of_nodup_map hslots ha hb (Option.some.inj hsame)
  · intro hinj a ha
    cases hlast : lastSlot? as a.field with
    | none => exact absurd (List.mem_map_of_mem ha) (lastSlot?_eq_none_iff.1 hlast)
    | some slot =>
      obtain ⟨b, hb, hname, rfl⟩ := exists_of_lastSlot? hlast
      rw [hinj b hb a ha hname]

namespace Schema

/-- A field is at one of the slots exactly when that is the last slot of its name. -/
theorem index_positioned_iff (hf : f ∈ (s.positioned as).fields)
    (hslot : slot ∈ as.map Placement.slot) :
    f.index = some slot ↔ lastSlot? as f.name = some slot := by
  rcases List.mem_append.1 hf with hold | hnew
  · obtain ⟨g, -, rfl⟩ := List.mem_map.1 hold
    rw [Field.name_placedBy]
    cases hlast : lastSlot? as g.name with
    | some other => simp [Field.placedBy, hlast]
    | none =>
      -- an index that the field has kept is none of the slots
      have hkept : (g.placedBy as).index = g.index.filter fun i => i ∉ as.map Placement.slot := by
        rw [Field.placedBy, hlast, Option.none_or]
      rw [hkept, Option.filter_eq_some_iff]
      simp only [hslot, not_true_eq_false, decide_false, Bool.false_eq_true, and_false,
        reduceCtorEq]
  · obtain ⟨b, -, rfl⟩ := List.mem_map.1 hnew
    exact Iff.rfl

/-- A marker has its field at its slot exactly when it is the last of its name. -/
theorem holds_positioned_iff (hslots : (as.map Placement.slot).Nodup) (ha : a ∈ as) :
    (s.positioned as).Holds a.field a.slot ↔ lastSlot? as a.field = some a.slot := by
  have hslot : a.slot ∈ as.map Placement.slot := List.mem_map_of_mem ha
  constructor
  · rintro ⟨f, hf, hname⟩
    have hindex : f.index = some a.slot := by simpa using List.find?_some hf
    rw [← hname]
    exact (index_positioned_iff (List.mem_of_find?_eq_some hf) hslot).1 hindex
  · intro hlast
    have hmem : a.field ∈ (s.positioned as).fieldNames :=
      mem_fieldNames_positioned.2 (Or.inr (List.mem_map_of_mem ha))
    obtain ⟨f, hf, hname⟩ := List.mem_map.1 hmem
    have hindex : f.index = some a.slot := (index_positioned_iff hf hslot).2 (hname ▸ hlast)
    have hsome : ((s.positioned as).fieldAt? a.slot).isSome = true :=
      List.find?_isSome.2 ⟨f, hf, by simpa using hindex⟩
    obtain ⟨g, hg⟩ := Option.isSome_iff_exists.1 hsome
    -- whoever is found there was given the slot, and it was given once
    have hgindex : g.index = some a.slot := by simpa using List.find?_some hg
    obtain ⟨b, hb, hbname, hbslot⟩ := exists_of_lastSlot?
      ((index_positioned_iff (List.mem_of_find?_eq_some hg) hslot).1 hgindex)
    obtain rfl : b = a := List.inj_on_of_nodup_map hslots hb ha hbslot
    exact ⟨g, hg, hbname.symm⟩

/-- The accepted markers of a host type all stand exactly when no name has two. -/
theorem acceptedStand_iff_nodup :
    s.AcceptedStand p c ↔ ((acceptances (p.flattenFields c)).map Placement.field).Nodup := by
  have hslots := nodup_slot_acceptances (p.flattenFields c)
  rw [← forall_lastSlot?_eq_self_iff hslots]
  constructor
  · intro hstand a ha
    have hholds := hstand.stands a ha
    rw [placeFields_eq] at hholds
    exact (holds_positioned_iff hslots ha).1 hholds
  · intro hlast
    have hstands : ∀ a ∈ acceptances (p.flattenFields c),
        (s.placeFields p c).Holds a.field a.slot := by
      intro a ha
      rw [placeFields_eq]
      exact (holds_positioned_iff hslots ha).2 (hlast a ha)
    refine ⟨hstands, fun position name owner hfault => ?_⟩
    rw [p.positionFaults_eq c] at hfault
    obtain ⟨a, ha, hslot⟩ := exists_acceptance_of_duplicate hfault
    exact ⟨a, ha, hslot, hstands a ha⟩

end Schema

/-- The accepted markers of a host type all stand exactly when no two of them are on
    fields of one name. Each by itself stands exactly when no later one is on a field of
    its name. -/
theorem accepted_stand_iff (s : Schema) (p : ClassPath) (c : HostType) :
    (s.AcceptedStand p c ↔
        ((acceptances (p.flattenFields c)).map Placement.field).Nodup) ∧
      ∀ before a after, acceptances (p.flattenFields c) = before ++ a :: after →
        ((s.placeFields p c).Holds a.field a.slot ↔ ∀ b ∈ after, b.field ≠ a.field) := by
  have hslots := nodup_slot_acceptances (p.flattenFields c)
  refine ⟨Schema.acceptedStand_iff_nodup, ?_⟩
  intro before a after hsplit
  have ha : a ∈ acceptances (p.flattenFields c) := by simp [hsplit]
  rw [Schema.placeFields_eq, Schema.holds_positioned_iff hslots ha]
  exact lastSlot?_eq_self_iff hslots hsplit

/-- A type whose field asks for the first position. -/
def reading : HostType :=
  { name := ⟨"p.Reading"⟩, superclass := some ⟨"p.Gauge"⟩,
    fields := [{ name := "value", type := "double", position := some 0 }] }

/-- Its superclass, which has a field of the same name at the second position. -/
def gauge : HostType :=
  { name := ⟨"p.Gauge"⟩, fields := [{ name := "value", type := "double", position := some 1 }] }

private theorem flattenFields_reading :
    (ClassPath.ofList [reading, gauge]).flattenFields reading = reading.fields ++ gauge.fields :=
  ClassPath.flattenFields_of_last rfl (by decide) (by decide) rfl

/-- Both markers of the reading are accepted, and the field ends at the second
    position. -/
theorem reading_leaves_first :
    ¬(Schema.ofHostType (.ofList [reading, gauge]) reading).AcceptedStand
      (.ofList [reading, gauge]) reading := by
  rw [Schema.acceptedStand_iff_nodup, flattenFields_reading]
  decide

end FactTypes
