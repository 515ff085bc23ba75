import FactTypes.Proofs.Session.IndexRange
import FactTypes.Proofs.Session.Resettling

/-!
# What a resolution writes

A resolution past the cache writes one declaration, one entry of the cache and its
diagnostics. Of the declaration it writes the settings and the structural definition, and
a definition that was there only grows. The ancestors of the declaration are read and never
written, whichever tables and aliases lead to them.
-/

namespace FactTypes

-- ═══════════════════════════════════════════════════════════════════════
-- The structural definition
-- ═══════════════════════════════════════════════════════════════════════

namespace Schema

/-- The names of the fields with their types, in their order. -/
def typedNames (s : Schema) : List (String × String) :=
  s.fields.map fun f => (f.name, f.type)

/-- Whether one definition has been laid out on another one: it has the same header, and
    its fields begin with those of the other in name and type. -/
structure GrowsInto (s t : Schema) : Prop where
  className : t.className = s.className
  superclass : t.superclass = s.superclass
  interfaces : t.interfaces = s.interfaces
  isTrait : t.isTrait = s.isTrait
  fields : s.typedNames.IsPrefix t.typedNames

variable {s t u : Schema}

theorem GrowsInto.trans (hst : s.GrowsInto t) (htu : t.GrowsInto u) : s.GrowsInto u :=
  ⟨htu.className.trans hst.className, htu.superclass.trans hst.superclass,
    htu.interfaces.trans hst.interfaces, htu.isTrait.trans hst.isTrait,
    hst.fields.trans htu.fields⟩

/-- Records leave header and fields alone. -/
theorem growsInto_recordMethods (s : Schema) (c : HostType) : s.GrowsInto (s.recordMethods c) := by
  rw [recordMethods_eq]
  exact ⟨rfl, rfl, rfl, rfl, List.prefix_rfl⟩

/-- Slots move the fields, and what is added comes behind them. -/
theorem growsInto_placeFields (s : Schema) (p : ClassPath) (c : HostType) :
    s.GrowsInto (s.placeFields p c) := by
  rw [placeFields_eq]
  refine ⟨rfl, rfl, rfl, rfl, ?_⟩
  rw [typedNames, typedNames, positioned, List.map_append, List.map_map]
  exact List.prefix_append _ _

end Schema

namespace Declaration

/-- Whether two declarations differ at most in their settings and in their structural
    definition. -/
def SameRecord (d e : Declaration) : Prop :=
  e = { d with settings := e.settings, schema := e.schema }

variable {d : Declaration} {old : Schema}

/-- The definition of a declaration grows when it is laid out. -/
theorem growsInto_finishedSchema (hold : d.schema = some old) (p : ClassPath) (c : HostType) :
    old.GrowsInto (d.finishedSchema p c) := by
  rw [finishedSchema, baseSchema, hold, Option.getD_some]
  split
  · exact (old.growsInto_recordMethods c).trans (Schema.growsInto_placeFields _ p c)
  · exact old.growsInto_placeFields p c

/-- The declaration that is derived from a type has everything but settings and structure
    from the type and from the policy. -/
theorem sameRecord_ofHostType (policy : ReactivityPolicy) (c : HostType) :
    SameRecord
      { name := c.name, kind := .ordinary, nature := .discovered, typeClass := some c.name,
        resource := c.resource,
        reactivity := if policy.tracksProperties c.markers.propertyReactive c.markers.wholeReactive
          then .property else .wholeObject }
      (ofHostType policy c) := by
  rw [SameRecord, ofHostType]
  split <;> rfl

theorem SameRecord.trans {d e f : Declaration} (hde : d.SameRecord e) (hef : e.SameRecord f) :
    d.SameRecord f := by
  rw [SameRecord] at hde hef ⊢
  rw [hef, hde]

end Declaration

namespace Session

/-- Settling writes settings and structure. -/
theorem sameRecord_settled (s : Session) (p : ClassPath) (c : HostType) (h : Handle) :
    (s.store.get h).SameRecord (s.settled p c h) := by
  rw [Declaration.SameRecord, settled]
  split <;> rfl

/-- Everything that a resolution past the cache writes, when a handle is its answer. -/
structure ResolvesCold (s : Session) (p : ClassPath) (c : HostType) (h : Handle) : Prop where
  answer : (s.resolve p c).declaration = some h
  policy : (s.resolve p c).session.policy = s.policy
  builtins : (s.resolve p c).session.builtins = s.builtins
  packages : (s.resolve p c).session.packages = s.packages
  /-- The answer is entered under the name of the type, and nothing else is. -/
  cached : ∀ n, (s.resolve p c).session.cached n = if c.name = n then some h else s.cached n
  /-- No handle is issued but that of a new declaration. -/
  issued : ∀ k, (s.resolve p c).session.store.Issued k ↔
    s.store.Issued k ∨ s.lookup c.name = none ∧ k = h
  others : ∀ k, k ≠ h → (s.resolve p c).session.store.get k = s.store.get k
  /-- What is found under the name of the type is the answer, and keeps everything but
      settings and structure; a definition that it has grows. -/
  found : ∀ k, s.lookup c.name = some k → k = h ∧
    (s.store.get h).SameRecord ((s.resolve p c).session.store.get h) ∧
    ∀ old, (s.store.get h).schema = some old → ∃ new,
      ((s.resolve p c).session.store.get h).schema = some new ∧ old.GrowsInto new
  /-- Where nothing is found, the answer is new, and has everything but settings and
      structure from the type and from the policy. -/
  fresh : s.lookup c.name = none → ¬s.store.Issued h ∧
    Declaration.SameRecord
      { name := c.name, kind := .ordinary, nature := .discovered, typeClass := some c.name,
        resource := c.resource,
        reactivity :=
          if s.policy.tracksProperties c.markers.propertyReactive c.markers.wholeReactive
          then .property else .wholeObject }
      ((s.resolve p c).session.store.get h)
  /-- Each marker that is not accepted is reported, in the order of the flattened fields. -/
  diagnostics : ∀ ds : Diagnostics, (ds.report (s.resolve p c).diagnostics).entries =
    ds.entries ++ (refusals (p.flattenFields c) c.name.text).map fun fault =>
      { typeName := (s.resolve p c).session.store.nameOf h
        failure :=
          { fault
            trace := some { resource := c.resource.map Resource.id, frames := [c.name.text] } } }

variable {s : Session} {p : ClassPath} {c : HostType} {h : Handle}

theorem diagnostics_settle (s : Session) (p : ClassPath) (c : HostType) (h : Handle) :
    (s.settle p c h).diagnostics = (refusals (p.flattenFields c) c.name.text).map
      (c.diagnose ((s.settle p c h).session.store.nameOf h)) := by
  have hname : (s.settle p c h).session.store.nameOf h = s.store.nameOf h :=
    (s.becomes_settle p c h h).name
  rw [hname, ← p.positionFaults_eq c]
  rfl

/-- A resolution past the cache writes what is said of it, and nothing else. -/
theorem exists_resolvesCold (p : ClassPath) (hplain : c.isPlainValue = false)
    (hnone : s.cached c.name = none) : ∃ h, s.ResolvesCold p c h := by
  obtain ⟨t, h, heq, hget, -, -, hothers⟩ := resolve_of_uncached p hplain hnone
  have hanswer : (s.resolve p c).declaration = some h := congrArg Outcome.declaration heq
  have hfresh : s.lookup c.name = none → h = ⟨s.store.next⟩ := by
    intro hlookup
    have hprov := provenance_eq_fresh_iff.2 ⟨hnone, hlookup⟩
    exact Option.some.inj (hanswer.symm.trans (resolve_of_provenance_fresh hplain hprov).1)
  have hwritten : (s.resolve p c).session.store.get h = t.settled p c h := by
    rw [heq, get_settle_self]
  have hrecord : (s.candidate c).SameRecord ((s.resolve p c).session.store.get h) := by
    rw [hwritten, ← hget]
    exact t.sameRecord_settled p c h
  have hsettles := s.settles_resolve p c
  refine ⟨h, ?_⟩
  constructor
  case answer => exact hanswer
  case policy => exact hsettles.policy
  case builtins => exact hsettles.builtins
  case packages => exact hsettles.packages
  case cached =>
    intro n
    split
    · next hname => rw [← hname, cached_resolve_self hplain, hanswer]
    · next hname => exact cached_resolve_of_ne hname
  case issued =>
    intro k
    rw [issued_resolve_iff, provenance_eq_fresh_iff]
    refine or_congr_right ⟨?_, ?_⟩
    · rintro ⟨-, ⟨-, hlookup⟩, rfl⟩
      exact ⟨hlookup, (hfresh hlookup).symm⟩
    · rintro ⟨hlookup, rfl⟩
      exact ⟨hplain, ⟨hnone, hlookup⟩, hfresh hlookup⟩
  case others =>
    intro k hne
    rw [heq, get_settle, if_neg hne, hothers k hne]
  case found =>
    intro k hlookup
    have hprov := provenance_eq_found_iff.2 ⟨hnone, hlookup⟩
    obtain rfl : k = h := Option.some.inj
      ((declaration_resolve_of_known hplain (Or.inr hprov)).symm.trans hanswer)
    have hcandidate : s.candidate c = s.store.get k := by
      rw [candidate, hlookup, Option.elim_some]
    refine ⟨rfl, hcandidate ▸ hrecord, fun old hold => ⟨(t.store.get k).finishedSchema p c, ?_, ?_⟩⟩
    · rw [hwritten, schema_settled]
    · exact Declaration.growsInto_finishedSchema (by rw [hget, hcandidate, hold]) p c
  case fresh =>
    intro hlookup
    have hcandidate : s.candidate c = .ofHostType s.policy c := by
      rw [candidate, hlookup, Option.elim_none]
    refine ⟨?_, (Declaration.sameRecord_ofHostType s.policy c).trans (hcandidate ▸ hrecord)⟩
    rw [hfresh hlookup]
    exact Nat.lt_irrefl _
  case diagnostics =>
    intro ds
    show ds.entries ++ (s.resolve p c).diagnostics = _
    rw [heq, diagnostics_settle]
    rfl

/-- What the resolution of any type writes. A primitive type or an array has no
    declaration, and nothing is written or reported. Any other type that was not resolved
    before gets one; its cache entry, its settings, its structural definition and its
    diagnostics are all that is written. -/
theorem resolve_footprint (s : Session) (p : ClassPath) (c : HostType) :
    (c.isPlainValue = true → (s.resolve p c).declaration = none ∧
        (s.resolve p c).session = s ∧ (s.resolve p c).diagnostics = []) ∧
      (c.isPlainValue = false → s.cached c.name = none → ∃ h, s.ResolvesCold p c h) := by
  refine ⟨fun hplain => ?_, fun hplain hnone => exists_resolvesCold p hplain hnone⟩
  rw [resolve_of_isPlainValue hplain]
  exact ⟨rfl, rfl, rfl⟩

/-- A session in which a pair is declared, with a definition of its own. -/
def pairing : Session :=
  (start .standard).run
    [.author { Declaration.declared ⟨"p.Pair"⟩ with
        schema := some { className := "Pair", fields := [{ name := "left", type := "int" }] } },
      .declare ⟨4⟩]

/-- The host type of the pair. Its first field asks for a position that does not exist. -/
def pair : HostType :=
  { name := ⟨"p.Pair"⟩,
    fields :=
      [{ name := "left", type := "int", position := some (-1) },
        { name := "right", type := "int", position := some 1 }],
    resource := some ⟨"rules/pairs"⟩ }

/-- The declared pair is the answer, its definition grows, and the marker that is out of
    range is reported. -/
theorem pair_resolved_cold :
    pair.isPlainValue = false ∧ pairing.cached pair.name = none ∧
      pairing.ResolvesCold .empty pair ⟨4⟩ ∧
      ((Diagnostics.empty).report (pairing.resolve .empty pair).diagnostics).entries =
        [{ typeName := pair.name
           failure :=
             { fault := .outOfRangePosition (-1) "left" "p.Pair"
               trace := some { resource := some "rules/pairs", frames := ["p.Pair"] } } }] := by
  have hplain : pair.isPlainValue = false := by decide
  have hnone : pairing.cached pair.name = none := by decide
  obtain ⟨h, hcold⟩ := (resolve_footprint pairing .empty pair).2 hplain hnone
  have hlookup : pairing.lookup pair.name = some ⟨4⟩ := by decide
  obtain ⟨rfl, hrecord, -⟩ := hcold.found ⟨4⟩ hlookup
  have hname : (pairing.resolve .empty pair).session.store.nameOf ⟨4⟩ = pair.name := by
    rw [Store.nameOf, hrecord]
    decide
  have hfields : ClassPath.empty.flattenFields pair = pair.fields :=
    ClassPath.flattenFields_of_bare rfl
  refine ⟨hplain, hnone, hcold, ?_⟩
  rw [hcold.diagnostics, hname, hfields]
  decide

end Session

end FactTypes
