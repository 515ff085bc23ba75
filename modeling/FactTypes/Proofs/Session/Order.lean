import Mathlib.Data.List.Perm.Basic
import FactTypes.Proofs.Session.Runs

/-!
# The order of resolutions

Several types are resolved one after the other. A declaration may be the subject
of one resolution and an ancestor in another, yet the order makes no difference:
the turn of a type decides which handle is issued for it, and nothing else.

The argument is a closed form. What is found, derived and reported at a type's
turn is what would have been found, derived and reported for it at the start, and
a closed form over the starting session does not mention any order.
-/

namespace FactTypes

/-- The answers to several resolutions, and where they lead. -/
structure Roll where
  answers : List (TypeName × Option Handle)
  session : Session
  diagnostics : List Diagnostic

/-- The answer for a type, if it has a declaration. -/
def Roll.answer (r : Roll) (c : HostType) : Option Handle :=
  (r.answers.lookup c.name).join

namespace Session

/-- Resolves several types in their order. -/
def resolveAll (s : Session) (p : ClassPath) : List HostType → Roll
  | [] => { answers := [], session := s, diagnostics := [] }
  | c :: cs =>
    let outcome := s.resolve p c
    let rest := outcome.session.resolveAll p cs
    { answers := (c.name, outcome.declaration) :: rest.answers
      session := rest.session
      diagnostics := outcome.diagnostics ++ rest.diagnostics }

/-- Whether the types have different names and those that are still to be resolved
    find different declarations, or none. -/
structure Apart (s : Session) (cs : List HostType) : Prop where
  names : (cs.map HostType.name).Nodup
  lookups : ∀ c ∈ cs, ∀ d ∈ cs, s.cached c.name = none → s.cached d.name = none →
    ∀ h, s.lookup c.name = some h → s.lookup d.name = some h → c = d

end Session

/-- Whether two rolls for the types of a list, taken from one session, end alike:
    they differ at most in the handles of new declarations. -/
structure Roll.Agrees (s : Session) (cs : List HostType) (a b : Roll) : Prop where
  cachedNames : ∀ n, (a.session.cached n).isSome = (b.session.cached n).isSome
  plain : ∀ c ∈ cs, c.isPlainValue = true → a.answer c = none ∧ b.answer c = none
  known : ∀ c ∈ cs, c.isPlainValue = false → ∀ h,
    s.provenance c.name = .cached h ∨ s.provenance c.name = .found h →
    a.answer c = some h ∧ b.answer c = some h
  fresh : ∀ c ∈ cs, c.isPlainValue = false → s.provenance c.name = .fresh →
    ∃ h k, a.answer c = some h ∧ b.answer c = some k ∧
      a.session.store.get h = b.session.store.get k
  existing : ∀ h, s.store.Issued h → a.session.store.get h = b.session.store.get h
  packages : a.session.packages = s.packages ∧ b.session.packages = s.packages
  diagnostics : a.diagnostics.Perm b.diagnostics

namespace Session

variable {s t : Session} {p q : ClassPath} {c d : HostType} {cs ds : List HostType} {h k : Handle}
  {n : TypeName}

theorem settled_eq_of_settles (hs : s.Sound) (hst : s.Settles t)
    (hget : t.store.get h = s.store.get h) : t.settled p c h = s.settled p c h := by
  have hsame : t.hierarchy p = s.hierarchy p := hierarchy_eq_of_settles hst
  refine settled_congr (by rw [hget]) (by rw [hst.builtins]) (by rw [hsame]) ?_
  intro a ha
  exact (hst.becomes (hs.issued_of_finds (Hierarchy.finds_of_mem_ancestors ha))).authored

/-- What no walk finds is not one of the engine's own. -/
theorem holds_eq_false_of_not_finds (hh : ¬(s.hierarchy p).Finds h) :
    s.builtins.holds h = false := by
  by_contra hholds
  obtain ⟨n, hn⟩ := Table.holds_iff.1 (Bool.not_eq_false _ ▸ hholds)
  exact hh (Hierarchy.finds_iff.2 ⟨n, Or.inl hn⟩)

theorem not_finds_author (hs : s.Sound) (hst : s.Settles t) (x : Declaration) :
    ¬(s.hierarchy p).Finds (t.author x).1 := by
  intro hfinds
  exact t.not_issued_author x (hst.toExtends.issued (hs.issued_of_finds hfinds))

/-- New declarations of a type hold the same, whatever their handles are: those belong to
    none of the tables. -/
theorem derived_congr (hpolicy : t.policy = s.policy)
    (hlayOut : ∀ d : Declaration, d.layOut q c = d.layOut p c)
    (hnew : ¬(s.hierarchy p).Finds ⟨s.store.next⟩) (hnew' : ¬(t.hierarchy q).Finds ⟨t.store.next⟩)
    (hancestors : ((t.hierarchy q).closure c ⟨t.store.next⟩).ancestors =
      ((s.hierarchy p).closure c ⟨s.store.next⟩).ancestors)
    (hauthored : ∀ a ∈ ((s.hierarchy p).closure c ⟨s.store.next⟩).ancestors,
      (t.store.get a).settings.authored = (s.store.get a).settings.authored) :
    t.derived q c = s.derived p c := by
  rw [derived, derived, hpolicy]
  refine settled_congr ?_ ?_ hancestors ?_
  · rw [get_author_self, get_author_self, hlayOut]
  · show t.builtins.holds ⟨t.store.next⟩ = s.builtins.holds ⟨s.store.next⟩
    rw [holds_eq_false_of_not_finds hnew, holds_eq_false_of_not_finds hnew']
  · intro a ha
    have hold : a ≠ ⟨s.store.next⟩ := fun heq =>
      hnew (heq ▸ Hierarchy.finds_of_mem_ancestors ha)
    have hold' : a ≠ ⟨t.store.next⟩ := fun heq =>
      hnew' (heq ▸ Hierarchy.finds_of_mem_ancestors (hancestors ▸ ha))
    rw [get_author_of_ne _ hold, get_author_of_ne _ hold']
    exact hauthored a ha

theorem derived_eq_of_settles (hs : s.Sound) (hst : s.Settles t) :
    t.derived p c = s.derived p c := by
  have hsame : t.hierarchy p = s.hierarchy p := hierarchy_eq_of_settles hst
  have hnew : ¬(s.hierarchy p).Finds ⟨s.store.next⟩ :=
    not_finds_author hs (.refl s) (.ofHostType s.policy c)
  have hnew' : ¬(s.hierarchy p).Finds ⟨t.store.next⟩ :=
    not_finds_author hs hst (.ofHostType s.policy c)
  refine derived_congr hst.policy (fun _ => rfl) hnew (hsame ▸ hnew') ?_ ?_
  · rw [hsame, Hierarchy.closure_withSubject hnew hnew']
    rfl
  · intro a ha
    exact (hst.becomes (hs.issued_of_finds (Hierarchy.finds_of_mem_ancestors ha))).authored

/-- What is reported for a type depends on where its declaration comes from, on the faults
    of its markers, and on the name of a declaration that is found. -/
theorem diagnostics_resolve_congr (hprov : t.provenance c.name = s.provenance c.name)
    (hfaults : q.positionFaults c = p.positionFaults c)
    (hname : ∀ h, s.provenance c.name = .found h → t.store.nameOf h = s.store.nameOf h) :
    (t.resolve q c).diagnostics = (s.resolve p c).diagnostics := by
  rcases s.resolve_cases p c with ⟨hplain, heq⟩ | ⟨h, hplain, hcached, heq⟩ |
    ⟨h, hplain, hfound, heq⟩ | ⟨hplain, hfresh, heq⟩
  · rw [heq, resolve_of_isPlainValue hplain]
    rfl
  · rw [heq, resolve_of_cached hplain (provenance_eq_cached_iff.1 (hprov.trans hcached))]
    rfl
  · obtain ⟨hnone, hlookup⟩ := provenance_eq_found_iff.1 (hprov.trans hfound)
    rw [heq, resolve_of_found hplain hnone hlookup]
    simp only [settle, hfaults, hname h hfound]
  · obtain ⟨hnone, hlookup⟩ := provenance_eq_fresh_iff.1 (hprov.trans hfresh)
    have hname : ∀ u : Session, (u.author (.ofHostType u.policy c)).2.store.nameOf
        (u.author (.ofHostType u.policy c)).1 = c.name := by
      intro u
      rw [Store.nameOf, get_author_self]
      exact (Declaration.sameOrigin_ofHostType u.policy c).name
    rw [heq, resolve_of_fresh hplain hnone hlookup, synthesize_eq, synthesize_eq]
    simp only [settle, hfaults, hname]

/-- What is reported for a type is the same later, as long as the declaration that
    it finds keeps its name. -/
theorem diagnostics_resolve_eq (hs : s.Sound) (hst : s.Settles t)
    (hprov : t.provenance c.name = s.provenance c.name) :
    (t.resolve p c).diagnostics = (s.resolve p c).diagnostics := by
  refine diagnostics_resolve_congr hprov rfl fun h hfound => ?_
  exact (hst.origin (hs.issued_of_lookup (provenance_eq_found_iff.1 hfound).2)).name

namespace Apart

theorem name_ne (ha : s.Apart (c :: cs)) (hd : d ∈ cs) : c.name ≠ d.name := by
  intro heq
  have hnodup := ha.names
  rw [List.map_cons, List.nodup_cons] at hnodup
  exact hnodup.1 (List.mem_map.2 ⟨d, hd, heq.symm⟩)

theorem perm (ha : s.Apart cs) (hperm : cs.Perm ds) : s.Apart ds := by
  refine ⟨(hperm.map HostType.name).nodup_iff.1 ha.names, ?_⟩
  intro c hc d hd
  exact ha.lookups c (hperm.mem_iff.2 hc) d (hperm.mem_iff.2 hd)

/-- No two types touch the same declaration. -/
theorem eq_of_touches (ha : s.Apart cs) (hc : c ∈ cs) (hd : d ∈ cs) (hch : s.Touches c h)
    (hdh : s.Touches d h) : c = d := by
  obtain ⟨hcnone, hclookup⟩ := provenance_eq_found_iff.1 hch.2
  obtain ⟨hdnone, hdlookup⟩ := provenance_eq_found_iff.1 hdh.2
  exact ha.lookups c hc d hd hcnone hdnone h hclookup hdlookup

/-- The types that are left stay apart. -/
theorem tail (ha : s.Apart (c :: cs)) : (s.resolve p c).session.Apart cs := by
  have hnodup := ha.names
  rw [List.map_cons, List.nodup_cons] at hnodup
  refine ⟨hnodup.2, ?_⟩
  intro d hd e he hdnone henone h hdlookup helookup
  have hsettles := s.settles_resolve p c
  rw [cached_resolve_of_ne (ha.name_ne hd)] at hdnone
  rw [cached_resolve_of_ne (ha.name_ne he)] at henone
  rw [lookup_eq_of_settles hsettles] at hdlookup helookup
  exact ha.lookups d (List.mem_cons_of_mem c hd) e (List.mem_cons_of_mem c he) hdnone henone h
    hdlookup helookup

end Apart

theorem touches_resolve_iff (hne : c.name ≠ d.name) :
    (s.resolve p c).session.Touches d h ↔ s.Touches d h := by
  rw [Touches, Touches, provenance_resolve_of_ne hne]

theorem settles_resolveAll (s : Session) (p : ClassPath) (cs : List HostType) :
    s.Settles (s.resolveAll p cs).session := by
  induction cs generalizing s with
  | nil => exact .refl s
  | cons c rest ih => exact (s.settles_resolve p c).trans (ih _)

theorem answer_resolveAll_cons_self :
    (s.resolveAll p (c :: cs)).answer c = (s.resolve p c).declaration := by
  simp [resolveAll, Roll.answer]

theorem answer_resolveAll_cons_of_ne (hne : c.name ≠ d.name) :
    (s.resolveAll p (c :: cs)).answer d = ((s.resolve p c).session.resolveAll p cs).answer d := by
  have hbeq : (d.name == c.name) = false := by simpa using hne.symm
  simp [resolveAll, Roll.answer, List.lookup_cons, hbeq]

/-- An answer that does not depend on the turn is the answer at every turn. -/
theorem answer_resolveAll {x : Option Handle} (ha : s.Apart cs) (hc : c ∈ cs)
    (hx : ∀ t : Session, t.provenance c.name = s.provenance c.name →
      (t.resolve p c).declaration = x) :
    (s.resolveAll p cs).answer c = x := by
  induction cs generalizing s with
  | nil => exact absurd hc List.not_mem_nil
  | cons first rest ih =>
    rcases List.mem_cons.1 hc with rfl | hrest
    · exact answer_resolveAll_cons_self.trans (hx s rfl)
    · have hne := ha.name_ne hrest
      rw [answer_resolveAll_cons_of_ne hne]
      refine ih ha.tail hrest fun t ht => hx t ?_
      exact ht.trans (provenance_resolve_of_ne hne)

/-- What was found for none of the types is not written. -/
theorem get_resolveAll_of_not_touches (ha : s.Apart cs) (hissued : s.store.Issued h)
    (hnot : ∀ c ∈ cs, ¬s.Touches c h) : (s.resolveAll p cs).session.store.get h = s.store.get h := by
  induction cs generalizing s with
  | nil => rfl
  | cons c rest ih =>
    obtain ⟨hfirst, hrest⟩ := List.forall_mem_cons.1 hnot
    have hlater := (s.settles_resolve p c).toExtends.issued hissued
    show ((s.resolve p c).session.resolveAll p rest).session.store.get h = _
    rw [ih ha.tail hlater ?_, get_resolve_of_not_touches hissued hfirst]
    intro d hd
    rw [touches_resolve_iff (ha.name_ne hd)]
    exact hrest d hd

/-- What was found for one of the types ends as it would be settled at once. -/
theorem get_resolveAll_of_touches (hs : s.Sound) (ha : s.Apart cs) (hc : c ∈ cs)
    (htouch : s.Touches c h) : (s.resolveAll p cs).session.store.get h = s.settled p c h := by
  have hissued : s.store.Issued h :=
    hs.issued_of_lookup (provenance_eq_found_iff.1 htouch.2).2
  induction cs generalizing s with
  | nil => exact absurd hc List.not_mem_nil
  | cons first rest ih =>
    have hsettles := s.settles_resolve p first
    show ((s.resolve p first).session.resolveAll p rest).session.store.get h = _
    rcases List.mem_cons.1 hc with rfl | hrest
    · -- the type has its turn, and no later one touches its declaration again
      rw [get_resolveAll_of_not_touches ha.tail (hsettles.toExtends.issued hissued) ?_,
        get_resolve_of_touches htouch]
      intro d hd hdtouch
      rw [touches_resolve_iff (ha.name_ne hd)] at hdtouch
      have heq := ha.eq_of_touches List.mem_cons_self (List.mem_cons_of_mem c hd) htouch hdtouch
      exact ha.name_ne hd (congrArg HostType.name heq)
    · -- another type comes first and leaves the declaration as it is
      have hne := ha.name_ne hrest
      have hfirst : ¬s.Touches first h := by
        intro hfirst
        have heq := ha.eq_of_touches List.mem_cons_self hc hfirst htouch
        exact hne (congrArg HostType.name heq)
      rw [ih (sound_resolve hs) ha.tail hrest ((touches_resolve_iff hne).2 htouch)
        (hsettles.toExtends.issued hissued)]
      exact settled_eq_of_settles hs hsettles (get_resolve_of_not_touches hissued hfirst)

/-- A type that nothing was found for gets a new declaration, and that ends as it
    would be derived at once. -/
theorem exists_answer_resolveAll_of_fresh (hs : s.Sound) (ha : s.Apart cs) (hc : c ∈ cs)
    (hplain : c.isPlainValue = false) (hfresh : s.provenance c.name = .fresh) :
    ∃ h, (s.resolveAll p cs).answer c = some h ∧
      (s.resolveAll p cs).session.store.get h = s.derived p c := by
  induction cs generalizing s with
  | nil => exact absurd hc List.not_mem_nil
  | cons first rest ih =>
    have hsettles := s.settles_resolve p first
    rcases List.mem_cons.1 hc with rfl | hrest
    · obtain ⟨hdecl, hget⟩ := resolve_of_provenance_fresh (p := p) hplain hfresh
      refine ⟨⟨s.store.next⟩, answer_resolveAll_cons_self.trans hdecl, ?_⟩
      have hissued := issued_of_resolve hs hdecl
      show ((s.resolve p c).session.resolveAll p rest).session.store.get _ = _
      rw [get_resolveAll_of_not_touches ha.tail hissued ?_, hget]
      -- the new handle is in no table, so nothing finds it afterwards
      intro d hd hdtouch
      rw [touches_resolve_iff (ha.name_ne hd)] at hdtouch
      have hold := hs.issued_of_lookup (provenance_eq_found_iff.1 hdtouch.2).2
      exact absurd hold (Nat.lt_irrefl _)
    · have hne := ha.name_ne hrest
      obtain ⟨h, hanswer, hget⟩ := ih (sound_resolve hs) ha.tail hrest
        ((provenance_resolve_of_ne hne).trans hfresh)
      refine ⟨h, (answer_resolveAll_cons_of_ne hne).trans hanswer, ?_⟩
      exact hget.trans (derived_eq_of_settles hs hsettles)

/-- What is reported is what would be reported for each type at once. -/
theorem diagnostics_resolveAll (hs : s.Sound) (ha : s.Apart cs) :
    (s.resolveAll p cs).diagnostics = cs.flatMap fun c => (s.resolve p c).diagnostics := by
  induction cs generalizing s with
  | nil => rfl
  | cons c rest ih =>
    show (s.resolve p c).diagnostics ++ ((s.resolve p c).session.resolveAll p rest).diagnostics = _
    rw [ih (sound_resolve hs) ha.tail, List.flatMap_cons]
    congr 1
    refine List.flatMap_congr fun d hd => ?_
    exact diagnostics_resolve_eq hs (s.settles_resolve p c) (provenance_resolve_of_ne (ha.name_ne hd))

/-- Every type is cached afterwards that has a declaration. -/
theorem isSome_cached_resolveAll (s : Session) (p : ClassPath) (cs : List HostType)
    (n : TypeName) :
    ((s.resolveAll p cs).session.cached n).isSome = true ↔
      (s.cached n).isSome = true ∨ ∃ c ∈ cs, c.isPlainValue = false ∧ c.name = n := by
  induction cs generalizing s with
  | nil =>
    show (s.cached n).isSome = true ↔ _
    simp
  | cons c rest ih =>
    show (((s.resolve p c).session.resolveAll p rest).session.cached n).isSome = true ↔ _
    rw [ih, isSome_cached_resolve, or_assoc, List.exists_mem_cons_iff]

/-- The order in which types are resolved makes no difference but for the handles
    of new declarations. -/
theorem resolveAll_perm (hs : s.Sound) (ha : s.Apart cs) (hperm : cs.Perm ds) :
    Roll.Agrees s cs (s.resolveAll p cs) (s.resolveAll p ds) := by
  have hb : s.Apart ds := ha.perm hperm
  constructor
  case cachedNames =>
    intro n
    rw [Bool.eq_iff_iff, isSome_cached_resolveAll, isSome_cached_resolveAll]
    simp only [hperm.mem_iff]
  case plain =>
    intro c hc hplain
    have hnone : ∀ t : Session, t.provenance c.name = s.provenance c.name →
        (t.resolve p c).declaration = none := fun t _ => declaration_resolve_of_plain hplain
    exact ⟨answer_resolveAll ha hc hnone, answer_resolveAll hb (hperm.mem_iff.1 hc) hnone⟩
  case known =>
    intro c hc hplain h hprov
    have hsome : ∀ t : Session, t.provenance c.name = s.provenance c.name →
        (t.resolve p c).declaration = some h := by
      intro t ht
      exact declaration_resolve_of_known hplain (ht ▸ hprov)
    exact ⟨answer_resolveAll ha hc hsome, answer_resolveAll hb (hperm.mem_iff.1 hc) hsome⟩
  case fresh =>
    intro c hc hplain hfresh
    obtain ⟨h, hanswer, hget⟩ := exists_answer_resolveAll_of_fresh (p := p) hs ha hc hplain hfresh
    obtain ⟨k, hanswer', hget'⟩ := exists_answer_resolveAll_of_fresh (p := p) hs hb
      (hperm.mem_iff.1 hc) hplain hfresh
    exact ⟨h, k, hanswer, hanswer', hget.trans hget'.symm⟩
  case existing =>
    intro h hissued
    by_cases htouched : ∃ c ∈ cs, s.Touches c h
    · obtain ⟨c, hc, htouch⟩ := htouched
      rw [get_resolveAll_of_touches hs ha hc htouch,
        get_resolveAll_of_touches hs hb (hperm.mem_iff.1 hc) htouch]
    · have hnot : ∀ c ∈ cs, ¬s.Touches c h := fun c hc htouch => htouched ⟨c, hc, htouch⟩
      have hnot' : ∀ c ∈ ds, ¬s.Touches c h := fun c hc => hnot c (hperm.mem_iff.2 hc)
      rw [get_resolveAll_of_not_touches ha hissued hnot,
        get_resolveAll_of_not_touches hb hissued hnot']
  case packages =>
    exact ⟨(s.settles_resolveAll p cs).packages, (s.settles_resolveAll p ds).packages⟩
  case diagnostics =>
    rw [diagnostics_resolveAll hs ha, diagnostics_resolveAll hs hb]
    exact hperm.flatMap_right _

/-- A session in which an event type is filed that stands by itself. -/
def alerting : Session :=
  (start .standard).run [.author ((Declaration.declared ⟨"p.Event"⟩).setRole .event), .declare ⟨4⟩]

/-- A type that implements the event type. -/
def alert : HostType :=
  { name := ⟨"p.Alert"⟩, interfaces := [⟨"p.Event"⟩] }

/-- The event type itself. -/
def event : HostType :=
  { name := ⟨"p.Event"⟩, shape := .interface }

/-- The event type may be resolved before the type that inherits from it or
    behind it. -/
theorem resolveAll_alert_event :
    alerting.Sound ∧ alerting.Apart [alert, event] ∧ [alert, event].Perm [event, alert] ∧
      Roll.Agrees alerting [alert, event]
        (alerting.resolveAll (.ofList [alert, event]) [alert, event])
        (alerting.resolveAll (.ofList [alert, event]) [event, alert]) := by
  have hsound : alerting.Sound := sound_run (sound_start .standard) _
  have hperm : [alert, event].Perm [event, alert] := .swap event alert []
  have hapart : alerting.Apart [alert, event] := by
    have hnone : alerting.lookup alert.name = none := by decide
    refine ⟨by decide, ?_⟩
    intro c hc d hd _ _ h hclookup hdlookup
    rcases List.mem_pair.1 hc with rfl | rfl
    · exact absurd (hclookup.symm.trans hnone) (by simp)
    · rcases List.mem_pair.1 hd with rfl | rfl
      · exact absurd (hdlookup.symm.trans hnone) (by simp)
      · rfl
  exact ⟨hsound, hapart, hperm, resolveAll_perm hsound hapart hperm⟩

end Session

end FactTypes
