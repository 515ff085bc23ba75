import FactTypes.Proofs.Session.Order

/-!
# What is inherited from several ancestors

Ancestors are consulted one after the other, the nearest last, and each of them
replaces what came from those before it. What remains is the value of the nearest
ancestor on which the setting was written, so the order need not be looked at again.
-/

namespace FactTypes

namespace Setting

variable {α : Type}

/-- Consults several ancestors, the last of the list first. -/
def inheritAll (s : Setting α) (sources : List (Setting α)) : Setting α :=
  sources.foldr (fun source s => s.inherit source) s

/-- A setting that was written stands. Any other takes the first value of the list that
    was written, and stays as it is when there is none. -/
def fromNearest (s : Setting α) (sources : List (Setting α)) : Setting α :=
  if s.isExplicit then s
  else match sources.findSome? explicit? with
    | some value => .inherited value
    | none => s

theorem isExplicit_inheritAll (s : Setting α) (sources : List (Setting α)) :
    (s.inheritAll sources).isExplicit = s.isExplicit := by
  induction sources with
  | nil => rfl
  | cons source rest ih =>
    show ((s.inheritAll rest).inherit source).isExplicit = s.isExplicit
    rw [isExplicit, explicit?_inherit]
    exact ih

/-- What remains is the value of the nearest on which it was written. -/
theorem inheritAll_eq (s : Setting α) (sources : List (Setting α)) :
    s.inheritAll sources = s.fromNearest sources := by
  induction sources with
  | nil =>
    show s = if s.isExplicit then s else s
    rw [ite_self]
  | cons source rest ih =>
    show (s.inheritAll rest).inherit source = _
    -- the first of the list is consulted last
    rw [inherit_eq, isExplicit_inheritAll, ih, fromNearest, fromNearest, List.findSome?_cons]
    cases s.isExplicit with
    | true => rfl
    | false => cases source.explicit? <;> rfl

end Setting

namespace Settings

/-- What remains of the settings when several ancestors have been consulted. -/
def fromNearest (s : Settings) (sources : List Settings) : Settings where
  role := s.role.fromNearest (sources.map role)
  format := s.format.fromNearest (sources.map format)
  typesafe := s.typesafe.fromNearest (sources.map typesafe)

/-- Each of the settings is inherited without regard to the others. -/
theorem inheritAll_eq (s : Settings) (sources : List Settings) :
    s.inheritAll sources =
      { role := s.role.inheritAll (sources.map role)
        format := s.format.inheritAll (sources.map format)
        typesafe := s.typesafe.inheritAll (sources.map typesafe) } := by
  induction sources with
  | nil => rfl
  | cons source rest ih =>
    show (s.inheritAll rest).inherit source = _
    rw [ih]
    rfl

/-- The nearest ancestor on which it was written decides each of the settings. -/
theorem inheritAll_eq_fromNearest (s : Settings) (sources : List Settings) :
    s.inheritAll sources = s.fromNearest sources := by
  rw [inheritAll_eq, Setting.inheritAll_eq, Setting.inheritAll_eq, Setting.inheritAll_eq,
    fromNearest]

end Settings

namespace Session

variable {s : Session} {p : ClassPath} {c : HostType} {h : Handle}

theorem settings_settled (s : Session) (p : ClassPath) (c : HostType) (h : Handle) :
    (s.settled p c h).settings =
      if s.builtins.holds h then (s.store.get h).settings
      else (s.store.get h).settings.fromNearest
        ((((s.hierarchy p).closure c h).members.filter (fun a => a ≠ h)).map
          fun a => (s.store.get a).settings) := by
  rw [settled, Hierarchy.filter_members_closure]
  split
  · rfl
  · exact Settings.inheritAll_eq_fromNearest _ _

/-- What a type has for settings once it is resolved past the cache. Those of the engine
    stay. On any other declaration, what was written stands, and the rest is the value
    of the nearest member of the closure on which it was written. -/
theorem settings_resolve (hplain : c.isPlainValue = false) (hnone : s.cached c.name = none)
    (p : ClassPath) :
    ∃ h, (s.resolve p c).declaration = some h ∧
      ((s.resolve p c).session.store.get h).settings =
        if s.builtins.holds h then (s.candidate c).settings
        else (s.candidate c).settings.fromNearest
          ((((s.hierarchy p).closure c h).members.filter (fun a => a ≠ h)).map
            fun a => (s.store.get a).settings) := by
  obtain ⟨t, h, heq, hget, hbuiltins, hhierarchy, hothers⟩ := resolve_of_uncached p hplain hnone
  have hsources : (((s.hierarchy p).closure c h).members.filter (fun a => a ≠ h)).map
        (fun a => (t.store.get a).settings) =
      (((s.hierarchy p).closure c h).members.filter (fun a => a ≠ h)).map
        fun a => (s.store.get a).settings := by
    refine List.map_congr_left fun a ha => ?_
    rw [hothers a (by simpa using (List.mem_filter.1 ha).2)]
  refine ⟨h, congrArg Outcome.declaration heq, ?_⟩
  rw [heq, get_settle, if_pos rfl, settings_settled, hget, hbuiltins, hhierarchy, hsources]

/-- A session with three types on file: an event, a plain fact that is not typesafe, and
    one whose facts are traits. -/
def bulletin : Session :=
  (start .standard).run
    [.author ((Declaration.declared ⟨"p.Timed"⟩).setRole .event), .declare ⟨4⟩,
      .author (((Declaration.declared ⟨"p.Audited"⟩).setRole .fact).setTypesafe false),
      .declare ⟨5⟩,
      .author ((Declaration.declared ⟨"p.Notice"⟩).setFormat .asTrait), .declare ⟨6⟩]

/-- The type that implements the other two. -/
def notice : HostType :=
  { name := ⟨"p.Notice"⟩, interfaces := [⟨"p.Timed"⟩, ⟨"p.Audited"⟩] }

private theorem closure_notice :
    (bulletin.hierarchy .empty).closure notice ⟨6⟩ =
      { subject := ⟨6⟩, ancestors := [⟨4⟩, ⟨5⟩] } := by
  have hunknown : ∀ n, (bulletin.hierarchy .empty).classes.find? n = none := fun n =>
    ClassPath.find?_empty n
  have htimed : (bulletin.hierarchy .empty).explore [] (.new ⟨6⟩) ⟨"p.Timed"⟩ =
      .ok { subject := ⟨6⟩, ancestors := [⟨4⟩] } :=
    Hierarchy.explore_of_unknown (by simp) (by decide) (hunknown _)
  have haudited : (bulletin.hierarchy .empty).explore []
      { subject := ⟨6⟩, ancestors := [⟨4⟩] } ⟨"p.Audited"⟩ =
      .ok { subject := ⟨6⟩, ancestors := [⟨4⟩, ⟨5⟩] } :=
    Hierarchy.explore_of_unknown (by simp) (by decide) (hunknown _)
  have hown : (bulletin.hierarchy .empty).exploreOwn notice (.new ⟨6⟩) =
      { subject := ⟨6⟩, ancestors := [⟨4⟩, ⟨5⟩] } := by
    show Hierarchy.reached (Hierarchy.explore _ []
      (Hierarchy.reached (Hierarchy.explore _ [] (.new ⟨6⟩) ⟨"p.Timed"⟩)) ⟨"p.Audited"⟩) = _
    rw [htimed, Hierarchy.reached, haudited]
    rfl
  have hnone : (bulletin.hierarchy .empty).classes.superclasses notice = [] :=
    ClassPath.chainFrom_none _ _
  rw [Hierarchy.closure, Hierarchy.ascend, hown, hnone]
  rfl

/-- The notice keeps its own format. It is an event like the first of the two, and not
    typesafe like the second. -/
theorem settings_resolve_notice :
    notice.isPlainValue = false ∧ bulletin.cached notice.name = none ∧
      ((bulletin.resolve .empty notice).session.store.get ⟨6⟩).settings =
        { role := .inherited .event, format := .explicit .asTrait,
          typesafe := .inherited false } := by
  have hnone : bulletin.cached notice.name = none := by decide
  refine ⟨by decide, hnone, ?_⟩
  obtain ⟨h, hdecl, hsettings⟩ := settings_resolve (by decide) hnone .empty
  obtain rfl : h = ⟨6⟩ := by
    have hfound : bulletin.provenance notice.name = .found ⟨6⟩ := by decide
    rw [declaration_resolve_of_known (by decide) (Or.inr hfound)] at hdecl
    exact (Option.some.inj hdecl).symm
  rw [hsettings, closure_notice]
  decide

/-- A new declaration inherits from the ancestors of its host type. -/
theorem settings_derived (hs : s.Sound) :
    (s.derived p c).settings =
      (Declaration.ofHostType s.policy c).settings.inheritAll
        (((s.hierarchy p).closure c ⟨s.store.next⟩).ancestors.map fun a =>
          (s.store.get a).settings) := by
  set x := Declaration.ofHostType s.policy c with hx
  have hnew : ¬(s.hierarchy p).Finds (s.author x).1 := not_finds_author hs (.refl s) x
  have hforeign : (s.author x).2.builtins.holds (s.author x).1 = false :=
    holds_eq_false_of_not_finds hnew
  have hsources : (s.author x).2.sources p c (s.author x).1 =
      ((s.hierarchy p).closure c ⟨s.store.next⟩).ancestors.map fun a =>
        (s.store.get a).settings := by
    refine List.map_congr_left fun a ha => ?_
    rw [get_author_of_issued x (hs.issued_of_finds (Hierarchy.finds_of_mem_ancestors ha))]
  rw [derived, ← hx, settled, hforeign, hsources, get_author_self]
  rfl

end Session

end FactTypes
