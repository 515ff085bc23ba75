import FactTypes.Proofs.Layout.Positioning
import FactTypes.Proofs.Layout.Records
import FactTypes.Proofs.Session.Inheritance

/-!
# Settling a declaration twice

Each phase of settling comes to rest at once. Slots that were written are written to the
same fields again, the records of the methods replace themselves, and a setting that was
inherited gives way to the value that it was inherited from. The phases do not disturb each
other either.
-/

namespace FactTypes

open Std

/-- The last slot of a name stays its index, and none of the slots comes back to a field
    that has given it up. -/
theorem Field.placedBy_placedBy (as : List Placement) (f : Field) :
    (f.placedBy as).placedBy as = f.placedBy as := by
  simp only [placedBy, Field.mk.injEq, true_and]
  cases hlast : lastSlot? as f.name with
  | some slot => rfl
  | none => simp [Option.filter_filter]

/-- The added fields are at the last slots of their names already. -/
theorem map_placedBy_newcomers (as : List Placement) (names : List String) :
    (newcomers as names).map (Field.placedBy as) = newcomers as names := by
  rw [newcomers_eq, List.map_map]
  apply List.map_congr_left
  intro a _
  exact Field.placedBy_placedBy as _

namespace Schema

theorem positioned_positioned (s : Schema) (as : List Placement) :
    (s.positioned as).positioned as = s.positioned as := by
  have hmoved : (s.positioned as).fields.map (Field.placedBy as) = (s.positioned as).fields := by
    show (s.fields.map (Field.placedBy as) ++ newcomers as s.fieldNames).map _ = _
    rw [List.map_append, List.map_map, map_placedBy_newcomers]
    congr 1
    apply List.map_congr_left
    intro f _
    exact f.placedBy_placedBy as
  have hnone : newcomers as (s.positioned as).fieldNames = [] :=
    newcomers_eq_nil fun name hname => mem_fieldNames_positioned.2 (Or.inr hname)
  show { s.positioned as with
    fields := (s.positioned as).fields.map (Field.placedBy as) ++
      newcomers as (s.positioned as).fieldNames } = _
  rw [hmoved, hnone, List.append_nil]

theorem placeFields_placeFields (s : Schema) (p : ClassPath) (c : HostType) :
    (s.placeFields p c).placeFields p c = s.placeFields p c := by
  rw [placeFields_eq, placeFields_eq, positioned_positioned]

theorem recordMethods_recordMethods (s : Schema) (c : HostType) :
    (s.recordMethods c).recordMethods c = s.recordMethods c := by
  rw [recordMethods_eq, recordMethods_eq]
  simp only [Schema.mk.injEq, true_and]
  apply ExtTreeMap.ext_getElem?
  intro key
  rw [getElem?_foldl_insert, getElem?_foldl_insert, ← Option.or_assoc, Option.or_self]

/-- Records and positions are written to different parts of the schema. -/
theorem recordMethods_placeFields (s : Schema) (p : ClassPath) (c : HostType) :
    (s.placeFields p c).recordMethods c = (s.recordMethods c).placeFields p c := by
  rw [placeFields_eq, placeFields_eq, recordMethods_eq, recordMethods_eq]
  rfl

end Schema

namespace Declaration

/-- What is laid out is laid out on itself the next time. -/
theorem layOut_layOut (d : Declaration) (p : ClassPath) (c : HostType) :
    (d.layOut p c).layOut p c = d.layOut p c := by
  have hfinished : (d.layOut p c).finishedSchema p c = d.finishedSchema p c := by
    show (if d.isPropertyReactive then (d.finishedSchema p c).recordMethods c
      else d.finishedSchema p c).placeFields p c = d.finishedSchema p c
    rw [finishedSchema]
    split
    · rw [Schema.recordMethods_placeFields, Schema.recordMethods_recordMethods,
        Schema.placeFields_placeFields]
    · rw [Schema.placeFields_placeFields]
  rw [layOut, hfinished]
  rfl

/-- The settings have no part in it. -/
theorem layOut_with_settings (d : Declaration) (settings : Settings) (p : ClassPath)
    (c : HostType) :
    { d with settings }.layOut p c = { d.layOut p c with settings } := rfl

end Declaration

/-- An inherited value gives way to the one that it came from. -/
theorem Setting.fromNearest_fromNearest {α : Type} (s : Setting α) (sources : List (Setting α)) :
    (s.fromNearest sources).fromNearest sources = s.fromNearest sources := by
  unfold fromNearest
  cases hs : s.isExplicit with
  | true => simp [hs]
  | false =>
    cases sources.findSome? explicit? with
    | none => simp [hs]
    | some value => rfl

theorem Settings.inheritAll_inheritAll (s : Settings) (sources : List Settings) :
    (s.inheritAll sources).inheritAll sources = s.inheritAll sources := by
  simp only [inheritAll_eq_fromNearest, fromNearest, Setting.fromNearest_fromNearest]

namespace Session

variable (s : Session) (p : ClassPath) (c : HostType) (h : Handle)

theorem get_settle_self : (s.settle p c h).session.store.get h = s.settled p c h := by
  rw [get_settle, if_pos rfl]

/-- Settling writes one declaration, and nothing else to the store. -/
theorem store_settle : (s.settle p c h).session.store = s.store.put h (s.settled p c h) := by
  have hsubject : ((s.hierarchy p).closure c h).subject = h := Hierarchy.subject_closure _ c h
  rw [← get_settle_self]
  simp only [settle]
  split
  · rw [Store.get_update, if_pos rfl]
    rfl
  · simp only [Store.inheritAlong, hsubject, Store.update, Store.put_put, Store.get_put_self]

/-- The ancestors of the declaration, and what they hold, are the same afterwards. -/
theorem sources_settle : (s.settle p c h).session.sources p c h = s.sources p c h := by
  rw [sources, sources, hierarchy_eq_of_settles (s.settles_settle p c h)]
  apply List.map_congr_left
  intro ancestor hancestor
  -- the declaration itself is not one of its ancestors
  have hne : ancestor ≠ h := by
    rw [← Hierarchy.filter_members_closure] at hancestor
    simpa using (List.mem_filter.1 hancestor).2
  rw [get_settle, if_neg hne]

/-- What a settled declaration holds once it is settled again. -/
theorem settled_settle : (s.settle p c h).session.settled p c h = s.settled p c h := by
  have hbuiltins : (s.settle p c h).session.builtins = s.builtins := rfl
  rw [settled, get_settle_self, hbuiltins, sources_settle, settled]
  split
  · rw [Declaration.layOut_layOut]
  · rw [Declaration.layOut_with_settings, Declaration.layOut_layOut]
    simp only [Settings.inheritAll_inheritAll]

/-- A declaration that is settled for a type, whichever handle it has and however it came
    about, is settled for good: when it is settled for the same type once more, the session
    stays as it is, with its cache, its packages and all its declarations, and the same
    faults are reported. -/
theorem settle_again (s : Session) (p : ClassPath) (c : HostType) (h : Handle) :
    let once := s.settle p c h
    let again := once.session.settle p c h
    again.session = once.session ∧ again.diagnostics = once.diagnostics := by
  intro once again
  have hstore : again.session.store = once.session.store := by
    rw [store_settle, settled_settle, store_settle, Store.put_put]
  have hcached : once.session.cache.find? c.name = some h := by
    show once.session.cached c.name = some h
    rw [cached_settle, if_pos rfl]
  have hcache : again.session.cache = once.session.cache := Table.insert_eq_self hcached
  have hname : once.session.store.nameOf h = s.store.nameOf h := (s.becomes_settle p c h h).name
  constructor
  · show { once.session with store := again.session.store, cache := again.session.cache } = _
    rw [hstore, hcache]
  · show (p.positionFaults c).map (c.diagnose (once.session.store.nameOf h)) = _
    rw [hname]
    rfl

end Session

end FactTypes
