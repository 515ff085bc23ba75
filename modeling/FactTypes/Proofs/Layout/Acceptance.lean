import Mathlib.Data.List.Basic
import FactTypes.Layout.Placement

/-!
# Which position markers are accepted

The markers of a type are judged one after the other, with a table of the slots that
are taken. What becomes of a marker is nevertheless told by its place alone: it is
accepted if there is a slot of its number and no earlier field asks for the same one.
Whether that earlier field was accepted itself makes no difference.
-/

namespace FactTypes

/-- Whether a marker for a position, carried by the field at a place, is accepted: the
    position is one of as many slots as there are fields, and no earlier field asks
    for it. -/
def Accepts (fields : List HostField) (place : Nat) (position : Int) : Prop :=
  (0 ≤ position ∧ position < fields.length) ∧
    ∀ f ∈ fields.take place, f.position ≠ some position

instance (fields : List HostField) (place : Nat) (position : Int) :
    Decidable (Accepts fields place position) :=
  inferInstanceAs (Decidable (_ ∧ _))

/-- What the field at a place is given for its marker, if the marker is accepted. -/
def acceptance? (fields : List HostField) : HostField × Nat → Option Placement
  | (f, place) =>
    f.position.bind fun position =>
      if Accepts fields place position then
        some { field := f.name, type := f.type, slot := position.toNat }
      else none

/-- The fault of the marker at a place, if there is a marker that is not accepted. -/
def refusal? (fields : List HostField) (owner : String) : HostField × Nat → Option Fault
  | (f, place) =>
    f.position.bind fun position =>
      if Accepts fields place position then none
      else if position < 0 ∨ fields.length ≤ position then
        some (.outOfRangePosition position f.name owner)
      else some (.duplicatePosition position f.name owner)

/-- The accepted markers, in the order of the fields. -/
def acceptances (fields : List HostField) : List Placement :=
  fields.zipIdx.filterMap (acceptance? fields)

/-- The faults of the markers that are not accepted, in the order of the fields. -/
def refusals (fields : List HostField) (owner : String) : List Fault :=
  fields.zipIdx.filterMap (refusal? fields owner)

/-- The verdict on the marker at a place. -/
def verdictAt (fields : List HostField) (place : Nat) (position : Int) : Verdict :=
  if Accepts fields place position then .granted position.toNat
  else if position < 0 ∨ fields.length ≤ position then .outOfRange
  else .duplicate

variable {fields before rest : List HostField} {claimed : List Nat} {place slot : Nat}
  {f : HostField} {position : Int} {a : Placement}

-- ═══════════════════════════════════════════════════════════════════════
-- The accepted markers
-- ═══════════════════════════════════════════════════════════════════════

theorem acceptance?_eq_some_iff :
    acceptance? fields (f, place) = some a ↔
      f.position = some (a.slot : Int) ∧ Accepts fields place a.slot ∧
        a.field = f.name ∧ a.type = f.type := by
  constructor
  · intro ha
    obtain ⟨position, hposition, ha⟩ := Option.bind_eq_some_iff.1 ha
    split at ha
    · next haccepts =>
      obtain rfl := Option.some.inj ha
      have hslot : (position.toNat : Int) = position := Int.toNat_of_nonneg haccepts.1.1
      exact ⟨hposition.trans (congrArg some hslot.symm), hslot.symm ▸ haccepts, rfl, rfl⟩
    · cases ha
  · rintro ⟨hposition, haccepts, hname, htype⟩
    obtain ⟨field, type, slot⟩ := a
    simp only at hposition haccepts hname htype
    simp [acceptance?, hposition, haccepts, hname, htype]

theorem mem_acceptances_iff :
    a ∈ acceptances fields ↔
      ∃ place f, fields[place]? = some f ∧ acceptance? fields (f, place) = some a := by
  rw [acceptances, List.mem_filterMap]
  constructor
  · rintro ⟨⟨f, place⟩, hmem, ha⟩
    exact ⟨place, f, List.mem_zipIdx_iff_getElem?.1 hmem, ha⟩
  · rintro ⟨place, f, hf, ha⟩
    exact ⟨(f, place), List.mem_zipIdx_iff_getElem?.2 hf, ha⟩

/-- No slot is given twice: of two fields that ask for it, one stands before the
    other. -/
theorem nodup_slot_acceptances (fields : List HostField) :
    ((acceptances fields).map Placement.slot).Nodup := by
  rw [List.Nodup, List.pairwise_map, acceptances, List.pairwise_filterMap,
    List.pairwise_iff_getElem]
  intro i j hi hj hij a ha b hb hsame
  rw [List.length_zipIdx] at hi hj
  rw [List.getElem_zipIdx, Nat.zero_add] at ha hb
  obtain ⟨hasks, -, -, -⟩ := acceptance?_eq_some_iff.1 ha
  obtain ⟨-, ⟨-, hfirst⟩, -, -⟩ := acceptance?_eq_some_iff.1 hb
  have hbefore : fields[i] ∈ fields.take j := List.mem_take_iff_getElem.2 ⟨i, by omega, rfl⟩
  exact hfirst fields[i] hbefore (by rw [hasks, hsame])

/-- A position in range that some field asks for is accepted for the first of them. -/
theorem exists_acceptance (hf : f ∈ fields) (hasks : f.position = some position)
    (hrange : 0 ≤ position ∧ position < fields.length) :
    ∃ a ∈ acceptances fields, (a.slot : Int) = position := by
  have hsome : (fields.find? fun g => g.position = some position).isSome = true :=
    List.find?_isSome.2 ⟨f, hf, by simpa using hasks⟩
  obtain ⟨g, hg⟩ := Option.isSome_iff_exists.1 hsome
  obtain ⟨hposition, before, after, hsplit, hbefore⟩ := List.find?_eq_some_iff_append.1 hg
  have hslot : (position.toNat : Int) = position := Int.toNat_of_nonneg hrange.1
  have htake : fields.take before.length = before := by
    rw [hsplit, List.take_left']
    rfl
  refine ⟨⟨g.name, g.type, position.toNat⟩, mem_acceptances_iff.2 ⟨before.length, g, ?_, ?_⟩, hslot⟩
  · simp [hsplit]
  · refine acceptance?_eq_some_iff.2 ⟨?_, ?_, rfl, rfl⟩
    · rw [hslot]
      simpa using hposition
    · rw [hslot]
      exact ⟨hrange, fun b hb => by simpa using hbefore b (htake ▸ hb)⟩

/-- A fault of a duplicate names a slot that was given to an earlier field. -/
theorem exists_acceptance_of_duplicate {owner name other : String}
    (hfault : .duplicatePosition position name other ∈ refusals fields owner) :
    ∃ a ∈ acceptances fields, (a.slot : Int) = position := by
  obtain ⟨⟨f, place⟩, hmem, hrefused⟩ := List.mem_filterMap.1 hfault
  obtain ⟨asked, hasks, hrefused⟩ := Option.bind_eq_some_iff.1 hrefused
  have hf : f ∈ fields := List.mem_of_getElem? (List.mem_zipIdx_iff_getElem?.1 hmem)
  split at hrefused
  · cases hrefused
  · split at hrefused
    · cases hrefused
    · next hrange =>
      obtain ⟨rfl, -, -⟩ := Fault.duplicatePosition.inj (Option.some.inj hrefused)
      exact exists_acceptance hf hasks (by omega)

-- ═══════════════════════════════════════════════════════════════════════
-- Judging the markers in turn
-- ═══════════════════════════════════════════════════════════════════════

/-- Whether the table of the taken slots holds what the fields so far ask for, as far
    as it is in range. -/
def Tallies (count : Nat) (before : List HostField) (claimed : List Nat) : Prop :=
  ∀ slot, slot ∈ claimed ↔ slot < count ∧ ∃ f ∈ before, f.position = some (slot : Int)

theorem accepts_iff_of_tallies (hfields : fields = before ++ f :: rest)
    (htally : Tallies fields.length before claimed) (position : Int) :
    Accepts fields before.length position ↔
      ∃ slot, slot? fields.length position = some slot ∧ slot ∉ claimed := by
  have htake : fields.take before.length = before := by
    rw [hfields, List.take_left']
    rfl
  rw [Accepts, htake]
  constructor
  · rintro ⟨⟨hlow, hhigh⟩, hnew⟩
    refine ⟨position.toNat, slot?_eq_some_iff.2 (by omega), fun hmem => ?_⟩
    obtain ⟨-, g, hg, hasks⟩ := (htally _).1 hmem
    exact hnew g hg (by rw [hasks]; congr; omega)
  · rintro ⟨slot, hslot, hnew⟩
    obtain ⟨rfl, hlt⟩ := slot?_eq_some_iff.1 hslot
    refine ⟨by omega, fun g hg hasks => hnew ((htally slot).2 ⟨hlt, g, hg, hasks⟩)⟩

/-- The verdict on a place is the one that the table gives. -/
theorem verdictAt_eq_of_tallies (hfields : fields = before ++ f :: rest)
    (htally : Tallies fields.length before claimed) (position : Int) :
    verdictAt fields before.length position =
      match slot? fields.length position with
      | none => .outOfRange
      | some slot => if slot ∈ claimed then .duplicate else .granted slot := by
  have haccepts := accepts_iff_of_tallies hfields htally position
  unfold verdictAt
  cases hslot : slot? fields.length position with
  | none =>
    have hout : position < 0 ∨ fields.length ≤ position := by
      unfold slot? at hslot
      split at hslot
      · cases hslot
      · omega
    rw [if_neg (by simp [haccepts, hslot]), if_pos hout]
  | some slot =>
    obtain ⟨rfl, hlt⟩ := slot?_eq_some_iff.1 hslot
    by_cases htaken : slot ∈ claimed
    · rw [if_neg (by simp [haccepts, hslot, htaken]), if_neg (by omega)]
      exact (if_pos htaken).symm
    · rw [if_pos (by simp [haccepts, hslot, htaken]), Int.toNat_natCast]
      exact (if_neg htaken).symm

/-- The table stays as it is when a field asks for nothing new. -/
theorem Tallies.of_unasked (htally : Tallies fields.length before claimed)
    (hf : ∀ slot, slot < fields.length → f.position = some (slot : Int) → slot ∈ claimed) :
    Tallies fields.length (before ++ [f]) claimed := by
  intro slot
  constructor
  · intro hmem
    obtain ⟨hlt, g, hg, hasks⟩ := (htally slot).1 hmem
    exact ⟨hlt, g, List.mem_append_left _ hg, hasks⟩
  · rintro ⟨hlt, g, hg, hasks⟩
    by_cases hold : g ∈ before
    · exact (htally slot).2 ⟨hlt, g, hold, hasks⟩
    · obtain rfl : g = f := by simpa [hold] using hg
      exact hf slot hlt hasks

theorem Tallies.cons (htally : Tallies fields.length before claimed)
    (hf : f.position = some (slot : Int)) (hlt : slot < fields.length) :
    Tallies fields.length (before ++ [f]) (slot :: claimed) := by
  intro other
  rw [List.mem_cons, htally other]
  constructor
  · rintro (rfl | ⟨hother, g, hg, hasks⟩)
    · exact ⟨hlt, f, by simp, hf⟩
    · exact ⟨hother, g, List.mem_append_left _ hg, hasks⟩
  · rintro ⟨hother, g, hg, hasks⟩
    by_cases hold : g ∈ before
    · exact Or.inr ⟨hother, g, hold, hasks⟩
    · obtain rfl : g = f := by simpa [hold] using hg
      exact Or.inl (Int.ofNat.inj (Option.some.inj (hasks.symm.trans hf)))

/-- The verdict on the field at a place, if it carries a marker. -/
def judged? (fields : List HostField) : HostField × Nat → Option (PositionMarker × Verdict)
  | (f, place) => f.marker?.map fun m => (m, verdictAt fields place m.position)

/-- Judging the markers in turn gives each the verdict on its place. -/
theorem judge_eq (before : List HostField) (hfields : fields = before ++ rest)
    (htally : Tallies fields.length before claimed) :
    judge fields.length claimed (rest.filterMap HostField.marker?) =
      (rest.zipIdx before.length).filterMap (judged? fields) := by
  induction rest generalizing before claimed with
  | nil => rfl
  | cons f rest ih =>
    have hnext : fields = (before ++ [f]) ++ rest := by simp [hfields]
    have hlength : before.length + 1 = (before ++ [f]).length := by simp
    rw [List.zipIdx_cons, hlength]
    cases hposition : f.position with
    | none =>
      have hmarker : f.marker? = none := by simp [HostField.marker?, hposition]
      have hsame : Tallies fields.length (before ++ [f]) claimed :=
        htally.of_unasked (by simp [hposition])
      rw [List.filterMap_cons_none hmarker, List.filterMap_cons_none (by simp [judged?, hmarker]),
        ih _ hnext hsame]
    | some position =>
      have hmarker : f.marker? = some ⟨f.name, f.type, position⟩ := by
        simp [HostField.marker?, hposition]
      have hjudged : judged? fields (f, before.length) =
          some (⟨f.name, f.type, position⟩, verdictAt fields before.length position) := by
        simp [judged?, hmarker]
      rw [List.filterMap_cons_some hmarker, List.filterMap_cons_some hjudged, judge,
        verdictAt_eq_of_tallies hfields htally]
      cases hslot : slot? fields.length position with
      | none =>
        have hsame : Tallies fields.length (before ++ [f]) claimed := by
          refine htally.of_unasked fun slot hlt hasks => ?_
          obtain rfl : position = slot := Option.some.inj (hposition.symm.trans hasks)
          cases hslot.symm.trans (slot?_eq_some_iff.2 ⟨rfl, hlt⟩)
        simp only [ih _ hnext hsame]
      | some slot =>
        obtain ⟨rfl, hlt⟩ := slot?_eq_some_iff.1 hslot
        by_cases htaken : slot ∈ claimed
        · have hsame : Tallies fields.length (before ++ [f]) claimed := by
            refine htally.of_unasked fun other _ hasks => ?_
            rwa [← Int.ofNat.inj (Option.some.inj (hposition.symm.trans hasks))]
          simp only [if_pos htaken, ih _ hnext hsame]
        · simp only [if_neg htaken, ih _ hnext (htally.cons hposition hlt)]

-- ═══════════════════════════════════════════════════════════════════════
-- The markers of a type
-- ═══════════════════════════════════════════════════════════════════════

namespace ClassPath

variable (p : ClassPath) (c : HostType)

theorem verdicts_eq : p.verdicts c =
    (p.flattenFields c).zipIdx.filterMap (judged? (p.flattenFields c)) :=
  judge_eq [] rfl fun slot => by simp

/-- The slots that are given are those of the accepted markers. -/
theorem placements_eq : p.placements c = acceptances (p.flattenFields c) := by
  rw [placements, verdicts_eq, List.filterMap_filterMap, acceptances]
  apply List.filterMap_congr
  rintro ⟨f, place⟩ _
  cases hposition : f.position with
  | none => simp [judged?, HostField.marker?, acceptance?, hposition]
  | some position =>
    simp only [judged?, HostField.marker?, acceptance?, verdictAt, hposition, Option.map_some,
      Option.bind_some]
    by_cases haccepts : Accepts (p.flattenFields c) place position
    · rw [if_pos haccepts, if_pos haccepts, PositionMarker.placement?]
    · rw [if_neg haccepts, if_neg haccepts]
      split <;> rfl

/-- The faults are those of the markers that are not accepted. -/
theorem positionFaults_eq :
    p.positionFaults c = refusals (p.flattenFields c) c.name.text := by
  rw [positionFaults, verdicts_eq, List.filterMap_filterMap, refusals]
  apply List.filterMap_congr
  rintro ⟨f, place⟩ _
  cases hposition : f.position with
  | none => simp [judged?, HostField.marker?, refusal?, hposition]
  | some position =>
    simp only [judged?, HostField.marker?, refusal?, verdictAt, hposition, Option.map_some,
      Option.bind_some]
    by_cases haccepts : Accepts (p.flattenFields c) place position
    · rw [if_pos haccepts, if_pos haccepts, PositionMarker.fault?]
    · rw [if_neg haccepts, if_neg haccepts]
      split <;> rfl

end ClassPath

end FactTypes
