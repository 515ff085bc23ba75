import FactTypes.Proofs.Ancestry.Surroundings
import FactTypes.Proofs.Session.Order

/-!
# What a resolution depends on

A type is resolved by its surroundings: its own name, its superclass chain, and the
interfaces above both. Two sessions with the same declarations and the same cache that
agree there give it the same declaration, or two new ones that hold the same.

New declarations need not have the same handle, for one of the sessions may have issued
more. So the two walks are compared over a subject that neither session has issued.
-/

namespace FactTypes

namespace Session

/-- Whether two sessions, each with its class path, agree around a type. They have the
    same policy, the same cache, the same table of the engine, and every declaration that
    both know is the same; under the names around the type there are the same types, and
    the same declarations are filed there. -/
structure SameAround (s : Session) (p : ClassPath) (t : Session) (q : ClassPath)
    (c : HostType) : Prop where
  policy : t.policy = s.policy
  cache : t.cache = s.cache
  builtins : t.builtins = s.builtins
  contents : ∀ h, s.store.Issued h → t.store.Issued h → t.store.get h = s.store.get h
  classes : ∀ n, p.Relevant c n → q.find? n = p.find? n
  filed : ∀ n, p.Relevant c n →
    t.packages.find? n.package n.simpleName = s.packages.find? n.package n.simpleName

/-- Whether a type is resolved alike in two sessions. Its declaration comes from the same
    tier. It is the same one, or it is new in both; then the two hold the same and have
    the same ancestors. The declarations that both sessions know hold the same
    afterwards, the same is reported, and the closures are the same for every subject. -/
structure ResolvesAlike (s : Session) (p : ClassPath) (t : Session) (q : ClassPath)
    (c : HostType) : Prop where
  provenance : t.provenance c.name = s.provenance c.name
  plain : c.isPlainValue = true →
    (s.resolve p c).declaration = none ∧ (t.resolve q c).declaration = none
  known : c.isPlainValue = false → ∀ h,
    s.provenance c.name = .cached h ∨ s.provenance c.name = .found h →
    (s.resolve p c).declaration = some h ∧ (t.resolve q c).declaration = some h ∧
      (t.resolve q c).session.store.get h = (s.resolve p c).session.store.get h
  fresh : c.isPlainValue = false → s.provenance c.name = .fresh →
    ∃ h k, (s.resolve p c).declaration = some h ∧ (t.resolve q c).declaration = some k ∧
      (t.resolve q c).session.store.get k = (s.resolve p c).session.store.get h ∧
      ((t.hierarchy q).closure c k).ancestors = ((s.hierarchy p).closure c h).ancestors
  contents : ∀ h, s.store.Issued h → t.store.Issued h →
    (t.resolve q c).session.store.get h = (s.resolve p c).session.store.get h
  diagnostics : (t.resolve q c).diagnostics = (s.resolve p c).diagnostics
  closure : ∀ subject, (t.hierarchy q).closure c subject = (s.hierarchy p).closure c subject

variable {s t : Session} {p q : ClassPath} {c e : HostType} {d : Declaration} {h k : Handle}
  {package : String}

/-- The layout of a declaration is read off the flattened fields. -/
theorem layOut_congr (hfields : q.flattenFields c = p.flattenFields c) (d : Declaration) :
    d.layOut q c = d.layOut p c := by
  simp only [Declaration.layOut, Declaration.finishedSchema, Declaration.baseSchema,
    Schema.ofHostType, Schema.populate, Schema.placeFields, ClassPath.placements,
    ClassPath.verdicts, hfields]

theorem positionFaults_congr (hfields : q.flattenFields c = p.flattenFields c) :
    q.positionFaults c = p.positionFaults c := by
  simp only [ClassPath.positionFaults, ClassPath.verdicts, hfields]

/-- Subjects that no look-up finds have the same ancestors. -/
theorem ancestors_closure_of_not_finds (hh : ¬(s.hierarchy p).Finds h)
    (hk : ¬(s.hierarchy p).Finds k) : ((s.hierarchy p).closure c k).ancestors =
      ((s.hierarchy p).closure c h).ancestors := by
  rw [Hierarchy.closure_withSubject hh hk]
  rfl

-- ═══════════════════════════════════════════════════════════════════════
-- Sessions that agree around a type
-- ═══════════════════════════════════════════════════════════════════════

namespace SameAround

/-- Both sessions tell alike what lies around the type. -/
theorem symm (hst : s.SameAround p t q c) : t.SameAround q s p c := by
  have hrelevant : ∀ {n}, q.Relevant c n → p.Relevant c n :=
    fun hn => (ClassPath.relevant_congr hst.classes).1 hn
  exact ⟨hst.policy.symm, hst.cache.symm, hst.builtins.symm,
    fun h ht hs => (hst.contents h hs ht).symm, fun n hn => (hst.classes n (hrelevant hn)).symm,
    fun n hn => (hst.filed n (hrelevant hn)).symm⟩

variable (hst : s.SameAround p t q c)
include hst

theorem hierarchy : (s.hierarchy p).SameAround (t.hierarchy q) c :=
  ⟨hst.classes, hst.filed, hst.builtins⟩

theorem provenance_eq : t.provenance c.name = s.provenance c.name := by
  have hcached : t.cached c.name = s.cached c.name := by rw [cached, cached, hst.cache]
  exact provenance_congr hcached (hst.hierarchy.lookup_eq (Or.inl rfl))

theorem closure_eq (subject : Handle) :
    (t.hierarchy q).closure c subject = (s.hierarchy p).closure c subject :=
  Hierarchy.closure_congr hst.hierarchy subject

theorem flattenFields_eq : q.flattenFields c = p.flattenFields c :=
  ClassPath.flattenFields_congr hst.classes

/-- What the type's own name finds was issued in both sessions. -/
theorem issued_of_found (hs : s.Sound) (ht : t.Sound) (hfound : s.provenance c.name = .found h) :
    s.store.Issued h ∧ t.store.Issued h := by
  have hfound' : t.provenance c.name = .found h := hst.provenance_eq.trans hfound
  exact ⟨hs.issued_of_lookup (provenance_eq_found_iff.1 hfound).2,
    ht.issued_of_lookup (provenance_eq_found_iff.1 hfound').2⟩

/-- The ancestors were issued in both sessions, so they hold the same. -/
theorem get_ancestor (hs : s.Sound) (ht : t.Sound)
    (ha : h ∈ ((s.hierarchy p).closure c k).ancestors) : t.store.get h = s.store.get h := by
  have ha' : h ∈ ((t.hierarchy q).closure c k).ancestors := by rwa [hst.closure_eq]
  exact hst.contents h (hs.issued_of_finds (Hierarchy.finds_of_mem_ancestors ha))
    (ht.issued_of_finds (Hierarchy.finds_of_mem_ancestors ha'))

/-- New handles have the same ancestors. -/
theorem ancestors_new (hs : s.Sound) (ht : t.Sound) :
    ((t.hierarchy q).closure c ⟨t.store.next⟩).ancestors =
      ((s.hierarchy p).closure c ⟨s.store.next⟩).ancestors := by
  have hunissued : ∀ {u : Session} {r : ClassPath} {i : Nat}, u.Sound → u.store.next ≤ i →
      ¬(u.hierarchy r).Finds ⟨i⟩ := by
    intro u r i hu hle hfinds
    have hissued : i < u.store.next := hu.issued_of_finds hfinds
    omega
  -- a subject that was issued in neither session
  have hnew : ¬(s.hierarchy p).Finds ⟨max s.store.next t.store.next⟩ :=
    hunissued hs (Nat.le_max_left _ _)
  have hnew' : ¬(t.hierarchy q).Finds ⟨max s.store.next t.store.next⟩ :=
    hunissued ht (Nat.le_max_right _ _)
  rw [ancestors_closure_of_not_finds hnew' (hunissued ht (Nat.le_refl _)), hst.closure_eq,
    ancestors_closure_of_not_finds (hunissued hs (Nat.le_refl _)) hnew]

/-- A declaration that both know is settled alike. -/
theorem settled_eq (hs : s.Sound) (ht : t.Sound) (hh : s.store.Issued h) (hh' : t.store.Issued h) :
    t.settled q c h = s.settled p c h := by
  refine settled_congr ?_ (by rw [hst.builtins]) (by rw [hst.closure_eq]) ?_
  · rw [hst.contents h hh hh', layOut_congr hst.flattenFields_eq]
  · intro a ha
    rw [hst.get_ancestor hs ht ha]

/-- New declarations are derived alike. -/
theorem derived_eq (hs : s.Sound) (ht : t.Sound) : t.derived q c = s.derived p c := by
  have hnew : ¬(s.hierarchy p).Finds ⟨s.store.next⟩ :=
    not_finds_author hs (.refl s) (.ofHostType s.policy c)
  have hnew' : ¬(t.hierarchy q).Finds ⟨t.store.next⟩ :=
    not_finds_author ht (.refl t) (.ofHostType t.policy c)
  refine derived_congr hst.policy (layOut_congr hst.flattenFields_eq) hnew hnew'
    (hst.ancestors_new hs ht) ?_
  intro a ha
  rw [hst.get_ancestor hs ht ha]

/-- Resolving the type leaves the declarations alike that both sessions know. -/
theorem get_resolve_eq (hs : s.Sound) (ht : t.Sound) (hh : s.store.Issued h)
    (hh' : t.store.Issued h) :
    (t.resolve q c).session.store.get h = (s.resolve p c).session.store.get h := by
  have htouches : t.Touches c h ↔ s.Touches c h := by
    rw [Touches, Touches, hst.provenance_eq]
  by_cases htouch : s.Touches c h
  · rw [get_resolve_of_touches htouch, get_resolve_of_touches (htouches.2 htouch),
      hst.settled_eq hs ht hh hh']
  · rw [get_resolve_of_not_touches hh htouch,
      get_resolve_of_not_touches hh' (mt htouches.1 htouch), hst.contents h hh hh']

end SameAround

/-- A session in which a declaration is authored and filed, and another type is added or
    put in the place of the one of its name, agrees with the session before around every
    type to which neither is related. -/
theorem sameAround_introduce (hclass : ¬p.Relevant c e.name)
    (hfiled : ∀ n, p.Relevant c n → ¬(package = n.package ∧ d.name.simpleName = n.simpleName)) :
    s.SameAround p ((s.author d).2.file package (s.author d).1) (p.add e) c := by
  refine ⟨rfl, rfl, rfl, ?_, ?_, ?_⟩
  · intro h hh _
    exact get_author_of_issued d hh
  · intro n hn
    have hne : e.name ≠ n := fun heq => hclass (heq ▸ hn)
    rw [ClassPath.find?_add, if_neg hne]
  · intro n hn
    rw [filed_file, Store.nameOf, get_author_self, if_neg (hfiled n hn)]
    rfl

-- ═══════════════════════════════════════════════════════════════════════
-- The resolution
-- ═══════════════════════════════════════════════════════════════════════

/-- A type is resolved alike in sessions that agree around it, whatever else they know. -/
theorem resolvesAlike_of_sameAround (hs : s.Sound) (ht : t.Sound)
    (hst : s.SameAround p t q c) : s.ResolvesAlike p t q c := by
  have hprov := hst.provenance_eq
  constructor
  case provenance => exact hprov
  case plain =>
    intro hplain
    exact ⟨declaration_resolve_of_plain hplain, declaration_resolve_of_plain hplain⟩
  case known =>
    intro hplain h hknown
    have hissued : s.store.Issued h ∧ t.store.Issued h := by
      rcases hknown with hcached | hfound
      · have hcached' : t.provenance c.name = .cached h := hprov.trans hcached
        exact ⟨hs.cached (provenance_eq_cached_iff.1 hcached),
          ht.cached (provenance_eq_cached_iff.1 hcached')⟩
      · exact hst.issued_of_found hs ht hfound
    refine ⟨declaration_resolve_of_known hplain hknown, ?_,
      hst.get_resolve_eq hs ht hissued.1 hissued.2⟩
    exact declaration_resolve_of_known hplain (hprov ▸ hknown)
  case fresh =>
    intro hplain hfresh
    obtain ⟨hdecl, hget⟩ := resolve_of_provenance_fresh (p := p) hplain hfresh
    obtain ⟨hdecl', hget'⟩ := resolve_of_provenance_fresh (p := q) hplain (hprov.trans hfresh)
    refine ⟨_, _, hdecl, hdecl', ?_, hst.ancestors_new hs ht⟩
    rw [hget, hget', hst.derived_eq hs ht]
  case contents => exact fun h hh hh' => hst.get_resolve_eq hs ht hh hh'
  case diagnostics =>
    refine diagnostics_resolve_congr hprov (positionFaults_congr hst.flattenFields_eq) ?_
    intro h hfound
    obtain ⟨hh, hh'⟩ := hst.issued_of_found hs ht hfound
    rw [Store.nameOf, Store.nameOf, hst.contents h hh hh']
  case closure => exact hst.closure_eq

/-- A type below the alerts, and so not around them. -/
def bystander : HostType :=
  { name := ⟨"p.Bystander"⟩, superclass := some alert.name }

private theorem relevant_alert {n : TypeName}
    (hn : (ClassPath.ofList [alert, event]).Relevant alert n) :
    n = alert.name ∨ n = event.name := by
  rcases hn with rfl | hmet | ⟨a, ks, ht⟩
  · exact Or.inl rfl
  · exfalso
    induction hmet with
    | first hn => cases hn
    | next _ _ _ _ ih => exact ih
  · refine Or.inr ?_
    have hevent : (ClassPath.ofList [alert, event]).find? event.name = some event := by decide
    induction ht with
    | own hn => exact List.mem_singleton.1 (List.mem_of_getElem? hn)
    | up hs =>
      have hnone : (ClassPath.ofList [alert, event]).superclasses alert = [] :=
        ClassPath.chainFrom_none _ _
      rw [hnone] at hs
      cases hs
    | mention _ hd hm ih =>
      obtain rfl := Option.some.inj (hevent.symm.trans (ih ▸ hd))
      cases hm

/-- The alert is resolved alike, whether or not the bystander is known and declared. -/
theorem resolvesAlike_alert :
    let t := (alerting.author (.declared bystander.name)).2.file "p"
      (alerting.author (.declared bystander.name)).1
    let p := ClassPath.ofList [alert, event]
    alerting.Sound ∧ t.Sound ∧ alerting.SameAround p t (p.add bystander) alert ∧
      alerting.ResolvesAlike p t (p.add bystander) alert := by
  intro t p
  have hs : alerting.Sound := sound_run (sound_start .standard) _
  have ht : t.Sound := sound_file (sound_author hs _) (issued_author _ _)
  have hst : alerting.SameAround p t (p.add bystander) alert := by
    apply sameAround_introduce
    · intro hn
      rcases relevant_alert hn with h | h <;> exact absurd h (by decide)
    · intro n hn
      rcases relevant_alert hn with rfl | rfl <;> decide
  exact ⟨hs, ht, hst, resolvesAlike_of_sameAround hs ht hst⟩

end Session

end FactTypes
