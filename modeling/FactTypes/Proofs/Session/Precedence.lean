import FactTypes.Proofs.Ancestry.Lineage
import FactTypes.Proofs.Session.Inheritance

/-!
# The nearer ancestor has the last word

The ancestors of a closure are consulted from its end to its start, so a value that was
written on one of them hides whatever stands behind it. An ancestor that lies on every
line to another one stands in front of that one, and its values hide those of the other.
-/

namespace FactTypes

namespace Setting

variable {α : Type} {s a : Setting α} {front back back' : List (Setting α)}

/-- What stands behind a written value is hidden by it. -/
theorem fromNearest_append_of_isExplicit (ha : a.isExplicit) :
    s.fromNearest (front ++ a :: back) = s.fromNearest (front ++ a :: back') := by
  obtain ⟨v, hv⟩ := Option.isSome_iff_exists.1 ha
  simp only [fromNearest, List.findSome?_append, List.findSome?_cons, hv]

/-- Where a value was written, there is one to inherit. -/
theorem fromNearest_ne_unset_of_mem {sources : List (Setting α)} (hmem : a ∈ sources)
    (ha : a.isExplicit) : s.fromNearest sources ≠ .unset := by
  obtain ⟨v, hv⟩ := Option.isSome_iff_exists.1 ha
  have hsome : (sources.findSome? explicit?).isSome :=
    List.findSome?_isSome_iff.2 ⟨a, hmem, by rw [hv]; rfl⟩
  obtain ⟨v', hv'⟩ := Option.isSome_iff_exists.1 hsome
  intro hunset
  rw [fromNearest, hv'] at hunset
  split at hunset
  · next hs =>
    rw [hunset] at hs
    cases hs
  · cases hunset

end Setting

namespace Closure

/-- The settings of the subject once it has consulted its ancestors. -/
def merged (c : Closure) (s : Store) : Settings :=
  ((s.inheritAlong c).get c.subject).settings

/-- Whether an ancestor hides another one in a setting: wherever the setting was written on
    the first one, the subject has a value, and has the same one whatever the second one
    holds. -/
def Outranks {α : Type} (c : Closure) (setting : Settings → Setting α) (a b : Handle) : Prop :=
  ∀ (s : Store) (d : Declaration), (setting (s.get a).settings).isExplicit →
    setting (c.merged s) ≠ .unset ∧ setting (c.merged (s.put b d)) = setting (c.merged s)

variable {c : Closure} {a b : Handle} {α : Type} {setting : Settings → Setting α}

theorem merged_eq (c : Closure) (s : Store) :
    c.merged s = (s.get c.subject).settings.fromNearest
      (c.ancestors.map fun a => (s.get a).settings) := by
  rw [merged, Store.inheritAlong, Store.get_update, if_pos rfl,
    Session.foldr_inherit_eq _ _ fun a => (s.get a).settings]
  exact Settings.inheritAll_eq_fromNearest _ _

/-- In a setting that is inherited without regard to the others, an ancestor hides those
    behind it. -/
theorem outranks_of_ancestors_eq {front back : List Handle}
    (hsetting : ∀ (t : Settings) sources, setting (t.fromNearest sources) =
      (setting t).fromNearest (sources.map setting))
    (hsplit : c.ancestors = front ++ a :: back)
    (hothers : ∀ k ∈ c.subject :: (front ++ [a]), k ≠ b) : c.Outranks setting a b := by
  intro s d hwritten
  have hread : ∀ k ∈ c.subject :: (front ++ [a]), (s.put b d).get k = s.get k := fun k hk =>
    Store.get_put_of_ne s d (hothers k hk)
  have hfront : (front.map fun k => setting ((s.put b d).get k).settings) =
      front.map fun k => setting (s.get k).settings :=
    List.map_congr_left fun k hk => by rw [hread k (by simp [hk])]
  have hmerged : ∀ t : Store, setting (c.merged t) =
      (setting (t.get c.subject).settings).fromNearest
        ((front.map fun k => setting (t.get k).settings) ++ setting (t.get a).settings ::
          back.map fun k => setting (t.get k).settings) := by
    intro t
    rw [merged_eq, hsetting, hsplit, List.map_map, List.map_append, List.map_cons]
    rfl
  constructor
  · rw [hmerged]
    exact Setting.fromNearest_ne_unset_of_mem (by simp) hwritten
  · rw [hmerged, hmerged, hfront, hread a (by simp), hread c.subject (by simp)]
    exact Setting.fromNearest_append_of_isExplicit hwritten

/-- Of two ancestors the one that stands in front hides the other one. -/
theorem outranks_of_pair_sublist
    (hsetting : ∀ (t : Settings) sources, setting (t.fromNearest sources) =
      (setting t).fromNearest (sources.map setting))
    (hnodup : c.members.Nodup) (ha : a ≠ c.subject) (hpair : [a, b].Sublist c.members) :
    c.Outranks setting a b := by
  have hancestors : [a, b].Sublist c.ancestors :=
    (List.sublist_cons_iff.1 hpair).resolve_right fun ⟨_, heq, _⟩ => ha (List.cons.inj heq).1
  obtain ⟨near, far, hsplit, hnear, hfar⟩ := List.cons_sublist_iff.1 hancestors
  obtain ⟨front, between, rfl⟩ := List.append_of_mem hnear
  refine outranks_of_ancestors_eq hsetting
    (hsplit.trans (by rw [List.append_assoc, List.cons_append])) ?_
  rintro k hk rfl
  -- what stands in front would be a member twice
  have hmembers : c.members = (c.subject :: (front ++ a :: between)) ++ far := by
    rw [members, hsplit, List.cons_append]
  rw [hmembers] at hnodup
  refine (List.nodup_append.1 hnodup).2.2 k ?_ k (List.singleton_sublist.1 hfar) rfl
  rcases List.mem_cons.1 hk with rfl | hk
  · exact List.mem_cons_self
  · rcases List.mem_append.1 hk with hk | hk
    · simp [hk]
    · simp [List.mem_singleton.1 hk]

end Closure

namespace Hierarchy

variable {w : Hierarchy} {cls : HostType} {subject a b : Handle} {x y : TypeName}

/-- Let the names above a type find declarations of their own, and let every line to one of
    them come to another one. If the declaration of the first is a member of the closure,
    that of the other is a member as well and stands in front of it; and what was written
    on it hides what the farther one holds, in each of the settings. -/
theorem closure_nearer_outranks (hD : w.DistinctlyFound cls subject)
    (hy : w.classes.Reached cls y) (hdom : w.classes.Dominates cls x y) (hne : x ≠ y)
    (ha : w.lookup x = some a) (hb : w.FoundFor y b)
    (hmem : b ∈ (w.closure cls subject).members) :
    [a, b].Sublist (w.closure cls subject).members ∧
      (w.closure cls subject).Outranks Settings.role a b ∧
      (w.closure cls subject).Outranks Settings.format a b ∧
      (w.closure cls subject).Outranks Settings.typesafe a b := by
  have hpair := hD.pair_sublist_members hdom hne hy ha hb hmem
  have hnodup := w.nodup_members_closure cls subject
  have hsubject : a ≠ (w.closure cls subject).subject := by
    rw [subject_closure]
    rintro rfl
    exact hD.notSubject (hdom.reached hy) (Or.inl ha)
  exact ⟨hpair, Closure.outranks_of_pair_sublist (fun _ _ => rfl) hnodup hsubject hpair,
    Closure.outranks_of_pair_sublist (fun _ _ => rfl) hnodup hsubject hpair,
    Closure.outranks_of_pair_sublist (fun _ _ => rfl) hnodup hsubject hpair⟩

/-- Two declared traits that extend each other. -/
def notary : Hierarchy :=
  let (store, builtins) := Builtins.seed .empty
  let (a, store) := store.alloc (.declared ⟨"p.Signed"⟩)
  let (b, store) := store.alloc (.declared ⟨"p.Sealed"⟩)
  { classes := .ofList
      [{ name := ⟨"p.Signed"⟩, shape := .interface, interfaces := [⟨"p.Sealed"⟩] },
        { name := ⟨"p.Sealed"⟩, shape := .interface, interfaces := [⟨"p.Signed"⟩] }]
    builtins
    packages := (Packages.empty.declare store a).declare store b }

/-- A type that carries the first trait. -/
def deed : HostType :=
  { name := ⟨"p.Deed"⟩, interfaces := [⟨"p.Signed"⟩] }

private theorem notary_find_signed :
    notary.classes.find? ⟨"p.Signed"⟩ =
      some { name := ⟨"p.Signed"⟩, shape := .interface, interfaces := [⟨"p.Sealed"⟩] } := by
  decide

private theorem notary_find_sealed :
    notary.classes.find? ⟨"p.Sealed"⟩ =
      some { name := ⟨"p.Sealed"⟩, shape := .interface, interfaces := [⟨"p.Signed"⟩] } := by
  decide

/-- Every line goes by the first trait and comes to no name but the two. -/
private theorem notary_line {ns : List TypeName} (hline : notary.classes.Lineage deed ns) :
    ⟨"p.Signed"⟩ ∈ ns ∧ ∀ n ∈ ns, n = ⟨"p.Signed"⟩ ∨ n = ⟨"p.Sealed"⟩ := by
  induction hline with
  | own hn =>
    obtain rfl := List.mem_singleton.1 hn
    exact ⟨List.mem_singleton_self _, fun n hn => Or.inl (List.mem_singleton.1 hn)⟩
  | up hsplit =>
    have hnone : notary.classes.superclasses deed = [] :=
      ClassPath.chainFrom_none notary.classes _
    exact absurd (hsplit.symm.trans hnone) (by simp)
  | @mention n m ns d _ hd hm ih =>
    refine ⟨List.mem_cons_of_mem _ ih.1, List.forall_mem_cons.2 ⟨?_, ih.2⟩⟩
    rcases ih.2 n List.mem_cons_self with rfl | rfl
    · obtain rfl := Option.some.inj (notary_find_signed.symm.trans hd)
      exact Or.inr (List.mem_singleton.1 hm)
    · obtain rfl := Option.some.inj (notary_find_sealed.symm.trans hd)
      exact Or.inl (List.mem_singleton.1 hm)

private theorem notary_found {n : TypeName} {h : Handle} (hn : notary.classes.Reached deed n)
    (hfound : notary.FoundFor n h) :
    n = ⟨"p.Signed"⟩ ∧ h = ⟨4⟩ ∨ n = ⟨"p.Sealed"⟩ ∧ h = ⟨5⟩ := by
  obtain ⟨ns, hline⟩ := ClassPath.reached_iff_lineage.1 hn
  rcases (notary_line hline).2 n List.mem_cons_self with rfl | rfl
  · have hlookup : notary.lookup ⟨"p.Signed"⟩ = some ⟨4⟩ := by decide
    have hfiled : notary.packages.lookup ⟨"p.Signed"⟩ = some ⟨4⟩ := by decide
    exact Or.inl ⟨rfl, by simpa [FoundFor, hlookup, hfiled, eq_comm] using hfound⟩
  · have hlookup : notary.lookup ⟨"p.Sealed"⟩ = some ⟨5⟩ := by decide
    have hfiled : notary.packages.lookup ⟨"p.Sealed"⟩ = some ⟨5⟩ := by decide
    exact Or.inr ⟨rfl, by simpa [FoundFor, hlookup, hfiled, eq_comm] using hfound⟩

private theorem notary_distinctlyFound : notary.DistinctlyFound deed ⟨6⟩ := by
  refine ⟨?_, ?_⟩
  · intro n m h hn hm hfound hfound'
    rcases notary_found hn hfound with ⟨rfl, rfl⟩ | ⟨rfl, rfl⟩
    · rcases notary_found hm hfound' with ⟨rfl, -⟩ | ⟨-, heq⟩
      · rfl
      · cases heq
    · rcases notary_found hm hfound' with ⟨-, heq⟩ | ⟨rfl, -⟩
      · cases heq
      · rfl
  · intro n hn hfound
    rcases notary_found hn hfound with ⟨-, heq⟩ | ⟨-, heq⟩ <;> cases heq

/-- The second trait is added ahead of its exploration, which then stops at it. -/
private theorem mem_closure_deed : ⟨5⟩ ∈ (notary.closure deed ⟨6⟩).members := by
  have hrun : notary.classes.itinerary [] ⟨"p.Signed"⟩ =
      [.enter ⟨"p.Signed"⟩] ++ .gather ⟨"p.Sealed"⟩ ::
        [⟨"p.Sealed"⟩].flatMap (notary.classes.itinerary [⟨"p.Signed"⟩]) :=
    ClassPath.itinerary_of_known List.not_mem_nil notary_find_signed
  have hpass : notary.Passes (.new ⟨6⟩) [.enter ⟨"p.Signed"⟩] :=
    ⟨{ subject := ⟨6⟩, ancestors := [⟨4⟩] }, rfl⟩
  rw [closure_eq_foldl, mem_foldl_follow_iff]
  exact Or.inr ⟨[], _, [notary.classes.ascent deed], _, _, _, rfl, hrun, by decide, hpass⟩

/-- In the circle the trait that the type names itself is the nearer one. -/
theorem closure_deed_signed_outranks :
    notary.DistinctlyFound deed ⟨6⟩ ∧ notary.classes.Reached deed ⟨"p.Sealed"⟩ ∧
      notary.classes.Dominates deed ⟨"p.Signed"⟩ ⟨"p.Sealed"⟩ ∧
      notary.lookup ⟨"p.Signed"⟩ = some ⟨4⟩ ∧ notary.FoundFor ⟨"p.Sealed"⟩ ⟨5⟩ ∧
      ⟨5⟩ ∈ (notary.closure deed ⟨6⟩).members ∧
      [⟨4⟩, ⟨5⟩].Sublist (notary.closure deed ⟨6⟩).members ∧
      (notary.closure deed ⟨6⟩).Outranks Settings.role ⟨4⟩ ⟨5⟩ := by
  have hreached : notary.classes.Reached deed ⟨"p.Sealed"⟩ :=
    ⟨.own 0, [0], .mention (.own rfl) notary_find_signed rfl⟩
  have hdom : notary.classes.Dominates deed ⟨"p.Signed"⟩ ⟨"p.Sealed"⟩ :=
    fun _ hline => (notary_line hline).1
  have hlookup : notary.lookup ⟨"p.Signed"⟩ = some ⟨4⟩ := by decide
  have hfound : notary.FoundFor ⟨"p.Sealed"⟩ ⟨5⟩ := by decide
  obtain ⟨hpair, hrole, -, -⟩ := closure_nearer_outranks notary_distinctlyFound hreached hdom
    (by decide) hlookup hfound mem_closure_deed
  exact ⟨notary_distinctlyFound, hreached, hdom, hlookup, hfound, mem_closure_deed, hpair, hrole⟩

end Hierarchy

end FactTypes
