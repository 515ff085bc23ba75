import FactTypes.Proofs.Ancestry.Itinerary

/-! Where no type names an interface, the ancestors of a type are its superclasses. The
chain meets no name twice, so the ascent is stopped only by two names that find the
same declaration. -/

namespace FactTypes

namespace ClassPath

variable {p : ClassPath} {met : List TypeName} {next : Option TypeName} {c d : HostType}

/-- The chain goes along known names that were not met before it. -/
theorem find?_of_mem_chainFrom (hd : d ∈ p.chainFrom met next) :
    p.find? d.name = some d ∧ d.name ∉ met := by
  fun_induction p.chainFrom met next with
  | case1 => cases hd
  | case2 => cases hd
  | case3 => cases hd
  | case4 met n hmet c hfound ih =>
    have hname : c.name = n := name_eq_of_find? hfound
    rcases List.mem_cons.1 hd with rfl | hrest
    · exact hname ▸ ⟨hfound, hmet⟩
    · obtain ⟨hknown, hnew⟩ := ih hrest
      exact ⟨hknown, fun hold => hnew (List.mem_cons_of_mem _ hold)⟩

/-- The chain meets no name twice. -/
theorem nodup_map_name_chainFrom (p : ClassPath) (met : List TypeName) (next : Option TypeName) :
    ((p.chainFrom met next).map HostType.name).Nodup := by
  fun_induction p.chainFrom met next with
  | case1 => exact List.nodup_nil
  | case2 => exact List.nodup_nil
  | case3 => exact List.nodup_nil
  | case4 met n hmet c hfound ih =>
    have hname : c.name = n := name_eq_of_find? hfound
    refine List.nodup_cons.2 ⟨fun hmem => ?_, ih⟩
    obtain ⟨d, hd, hsame⟩ := List.mem_map.1 hmem
    exact (find?_of_mem_chainFrom hd).2 (by simp [hsame, hname])

/-- A superclass is known under its name, which is not that of the type. -/
theorem find?_of_mem_superclasses (hd : d ∈ p.superclasses c) :
    p.find? d.name = some d ∧ d.name ≠ c.name := by
  obtain ⟨hknown, hnew⟩ := find?_of_mem_chainFrom hd
  exact ⟨hknown, by simpa using hnew⟩

theorem nodup_map_name_superclasses (p : ClassPath) (c : HostType) :
    ((p.superclasses c).map HostType.name).Nodup :=
  nodup_map_name_chainFrom p _ _

/-- Where no superclass names an interface, the ascent explores the superclasses
    alone. -/
theorem ascent_of_bare (hbare : ∀ d ∈ p.superclasses c, d.interfaces = []) :
    p.ascent c = ((p.superclasses c).map HostType.name).map .enter := by
  have halone : ∀ d ∈ p.superclasses c, p.itinerary [] d.name = [.enter d.name] := by
    intro d hd
    rw [itinerary_of_known List.not_mem_nil (find?_of_mem_superclasses hd).1, hbare d hd]
    rfl
  rw [ascent, List.flatMap_def, List.map_congr_left halone, ← List.flatMap_def, List.map_map,
    List.map_eq_flatMap]
  rfl

end ClassPath

namespace Hierarchy

variable {w : Hierarchy} {cls : HostType} {c : Closure} {subject : Handle} {ns : List TypeName}

/-- A run of explored names adds what they find, if no declaration is met twice. -/
theorem members_follow_map_enter (hnodup : (c.members ++ ns.filterMap w.lookup).Nodup) :
    (w.follow c (ns.map .enter)).members = c.members ++ ns.filterMap w.lookup := by
  induction ns generalizing c with
  | nil => rw [List.map_nil, follow_nil, List.filterMap_nil, List.append_nil]
  | cons n rest ih =>
    rw [List.map_cons]
    cases hlookup : w.lookup n with
    | none =>
      rw [List.filterMap_cons_none hlookup] at hnodup ⊢
      have hgo : ¬w.Stops c (.enter n) := by
        rintro ⟨m, h, heq, hfound, -⟩
        cases heq
        cases hlookup.symm.trans hfound
      rw [follow_of_not_stops hgo, found, hlookup]
      exact ih hnodup
    | some h =>
      rw [List.filterMap_cons_some hlookup] at hnodup ⊢
      have hnew : h ∉ c.members := fun hmem =>
        (List.nodup_append.1 hnodup).2.2 h hmem h List.mem_cons_self rfl
      have hgo : ¬w.Stops c (.enter n) := by
        rintro ⟨m, k, heq, hfound, hmem⟩
        cases heq
        obtain rfl := Option.some.inj (hlookup.symm.trans hfound)
        exact hnew hmem
      have hadded : (c.insert h).members = c.members ++ [h] := by
        rw [Closure.members_insert, if_neg hnew]
      rw [follow_of_not_stops hgo, found, hlookup, Closure.collect_some]
      rw [ih (by rwa [hadded, List.append_assoc]), hadded, List.append_assoc]
      rfl

/-- Where no type names an interface, the ancestors are what is found for the
    superclasses, the nearest first, if no declaration is met twice. -/
theorem ancestors_closure_of_bare (hcls : cls.interfaces = [])
    (hbare : ∀ d ∈ w.classes.superclasses cls, d.interfaces = [])
    (hnodup : (subject :: (w.classes.superclasses cls).filterMap fun d => w.lookup d.name).Nodup) :
    (w.closure cls subject).ancestors =
      (w.classes.superclasses cls).filterMap fun d => w.lookup d.name := by
  have hruns : w.classes.runs cls =
      [((w.classes.superclasses cls).map HostType.name).map .enter] := by
    rw [ClassPath.runs, hcls, ClassPath.ascent_of_bare hbare]
    rfl
  have hfound : ((w.classes.superclasses cls).map HostType.name).filterMap w.lookup =
      (w.classes.superclasses cls).filterMap fun d => w.lookup d.name := List.filterMap_map
  have hmembers : (w.closure cls subject).members = subject ::
      (w.classes.superclasses cls).filterMap fun d => w.lookup d.name := by
    rw [closure_eq_foldl, hruns, ← hfound]
    exact members_follow_map_enter (by rwa [hfound])
  exact (List.cons.inj hmembers).2

end Hierarchy

end FactTypes
