import FactTypes.Proofs.Ancestry.Ascent

/-!
# The nearer ancestor comes first

A line leads from a type to a name above it, first along the superclass chain and then
from interface to interface. When a run comes to a look-up, it has explored the names of
some line that leads to the name at hand: those of the explorations that are under way,
and the superclasses that the ascent has left behind. So a name that lies on every line to
another one is explored ahead of any look-up of that one.
-/

namespace FactTypes

namespace ClassPath

/-- The lines that lead from a type to a name above it. A line lists the names that it
    comes to, the last of them first and without the type: those of the superclasses up to
    the one at which it leaves the chain, and those of the interfaces behind it. -/
inductive Lineage (p : ClassPath) (cls : HostType) : List TypeName → Prop where
  | own {n : TypeName} (hn : n ∈ cls.interfaces) : Lineage p cls [n]
  | up {s : HostType} {front back : List HostType}
    (hsplit : p.superclasses cls = front ++ s :: back) :
    Lineage p cls (s.name :: (front.map HostType.name).reverse)
  | mention {n m : TypeName} {ns : List TypeName} {d : HostType}
    (hline : Lineage p cls (n :: ns)) (hd : p.find? n = some d) (hm : m ∈ d.interfaces) :
    Lineage p cls (m :: n :: ns)

/-- Whether every line from a type to one name comes to another name. -/
def Dominates (p : ClassPath) (cls : HostType) (x y : TypeName) : Prop :=
  ∀ ns, p.Lineage cls (y :: ns) → x ∈ y :: ns

variable {p : ClassPath} {cls : HostType} {path ns : List TypeName} {n m : TypeName}
  {e : Sighting} {run before after : List Sighting}

-- ═══════════════════════════════════════════════════════════════════════
-- Lines
-- ═══════════════════════════════════════════════════════════════════════

/-- All names of a line lie above the type. -/
theorem Lineage.reached {names : List TypeName} (hline : p.Lineage cls names) (hn : n ∈ names) :
    p.Reached cls n := by
  induction hline generalizing n with
  | own hm =>
    obtain rfl := List.mem_singleton.1 hn
    obtain ⟨k, hk⟩ := List.mem_iff_getElem?.1 hm
    exact ⟨_, _, .own hk⟩
  | @up s front back hsplit =>
    have hname : n ∈ (front ++ [s]).map HostType.name := by simpa [or_comm] using hn
    obtain ⟨t, ht, rfl⟩ := List.mem_map.1 hname
    have hchain : t ∈ p.superclasses cls := by
      rw [hsplit, List.append_cons]
      exact List.mem_append_left _ ht
    obtain ⟨k, hk⟩ := List.mem_iff_getElem?.1 hchain
    exact ⟨_, _, .up hk⟩
  | mention _ hd hm ih =>
    rcases List.mem_cons.1 hn with rfl | hn
    · obtain ⟨a, ks, ht⟩ := ih List.mem_cons_self
      obtain ⟨k, hk⟩ := List.mem_iff_getElem?.1 hm
      exact ⟨_, _, .mention ht hd hk⟩
    · exact ih hn

/-- The names that a line leads to are those that lie above the type. -/
theorem reached_iff_lineage : p.Reached cls n ↔ ∃ ns, p.Lineage cls (n :: ns) := by
  refine ⟨?_, fun ⟨_, hline⟩ => hline.reached List.mem_cons_self⟩
  rintro ⟨a, ks, ht⟩
  induction ht with
  | own hn => exact ⟨_, .own (List.mem_of_getElem? hn)⟩
  | up hs =>
    obtain ⟨front, back, hsplit⟩ := List.append_of_mem (List.mem_of_getElem? hs)
    exact ⟨_, .up hsplit⟩
  | mention _ hd hm ih =>
    obtain ⟨ns, hline⟩ := ih
    exact ⟨_, .mention hline hd (List.mem_of_getElem? hm)⟩

theorem Dominates.reached {x y : TypeName} (hdom : p.Dominates cls x y) (hy : p.Reached cls y) :
    p.Reached cls x := by
  obtain ⟨ns, hline⟩ := reached_iff_lineage.1 hy
  exact hline.reached (hdom ns hline)

/-- When the exploration of a name at the end of a line comes to a look-up, it has
    explored the names of a line that goes on from there. -/
theorem Lineage.exists_of_itinerary (hline : p.Lineage cls (n :: ns))
    (hsplit : p.itinerary path n = before ++ e :: after) :
    ∃ ms, p.Lineage cls (e.name :: (ms ++ ns)) ∧ ∀ m ∈ ms, .enter m ∈ before := by
  refine itinerary_induction (p := p)
    (motive := fun path n => ∀ ns before after, p.Lineage cls (n :: ns) →
      p.itinerary path n = before ++ e :: after →
      ∃ ms, p.Lineage cls (e.name :: (ms ++ ns)) ∧ ∀ m ∈ ms, .enter m ∈ before)
    ?_ ?_ ?_ path n ns before after hline hsplit
  · intro path n hpath ns before after _ hsplit
    rw [itinerary_of_mem_path hpath] at hsplit
    exact absurd hsplit.symm (by simp)
  · intro path n hpath hfound ns before after hline hsplit
    rw [itinerary_of_unknown hpath hfound] at hsplit
    cases before with
    | nil =>
      obtain ⟨rfl, -⟩ := List.cons.inj hsplit
      exact ⟨[], hline, by simp⟩
    | cons e' before => exact absurd (List.cons.inj hsplit).2.symm (by simp)
  · intro path n d hpath hfound ih ns before after hline hsplit
    rw [itinerary_of_known hpath hfound] at hsplit
    cases before with
    | nil =>
      obtain ⟨rfl, -⟩ := List.cons.inj hsplit
      exact ⟨[], hline, by simp⟩
    | cons e' before =>
      obtain ⟨rfl, hrest⟩ := List.cons.inj hsplit
      rcases split_append hrest with ⟨rest, hgather⟩ | ⟨rest, rfl, hbelow⟩
      · obtain ⟨i, hi, rfl⟩ := List.mem_map.1 (hgather ▸ List.mem_append_cons_self)
        exact ⟨[n], .mention hline hfound hi, by simp⟩
      · obtain ⟨front, i, back, inner, outer, hinterfaces, hi, rfl⟩ := split_flatMap hbelow
        have hmention : p.Lineage cls (i :: n :: ns) :=
          .mention hline hfound (by simp [hinterfaces])
        obtain ⟨ms, hms, hall⟩ := ih i _ _ _ hmention hi
        refine ⟨ms ++ [n], by rwa [List.append_assoc], fun m hm => ?_⟩
        rcases List.mem_append.1 hm with hm | hm
        · simp [hall m hm]
        · simp [List.mem_singleton.1 hm]

/-- When a run comes to a look-up, it has explored the other names of some line that leads
    to the name at hand. -/
theorem Lineage.exists_of_run (hrun : run ∈ p.runs cls) (hsplit : run = before ++ e :: after) :
    ∃ ns, p.Lineage cls (e.name :: ns) ∧ ∀ n ∈ ns, .enter n ∈ before := by
  rcases List.mem_append.1 hrun with hown | hascent
  · obtain ⟨i, hi, rfl⟩ := List.mem_map.1 hown
    obtain ⟨ms, hms, hall⟩ := (Lineage.own hi).exists_of_itinerary hsplit
    exact ⟨ms, by rwa [List.append_nil] at hms, hall⟩
  · obtain rfl := List.mem_singleton.1 hascent
    obtain ⟨front, s, back, inner, outer, hchain, hs, rfl⟩ := split_flatMap hsplit
    obtain ⟨ms, hms, hall⟩ := (Lineage.up hchain).exists_of_itinerary hs
    refine ⟨_, hms, fun n hn => ?_⟩
    rcases List.mem_append.1 hn with hn | hn
    · exact List.mem_append_right _ (hall n hn)
    · -- the superclasses before the one at hand have been explored to their end
      obtain ⟨t, ht, rfl⟩ := List.mem_map.1 (List.mem_reverse.1 hn)
      exact List.mem_append_left _
        (List.mem_flatMap.2 ⟨t, ht, enter_mem_itinerary_self List.not_mem_nil⟩)

/-- A dominating name is explored ahead of any look-up of the other one. -/
theorem Dominates.enter_mem {x : TypeName} (hdom : p.Dominates cls x e.name) (hne : x ≠ e.name)
    (hrun : run ∈ p.runs cls) (hsplit : run = before ++ e :: after) : .enter x ∈ before := by
  obtain ⟨ns, hline, hall⟩ := Lineage.exists_of_run hrun hsplit
  exact hall x ((List.mem_cons.1 (hdom ns hline)).resolve_left hne)

end ClassPath

namespace Hierarchy

/-- Whether the names above a type find declarations of their own, by their look-ups and
    among the filed ones alone, and none of them the subject. -/
structure DistinctlyFound (w : Hierarchy) (cls : HostType) (subject : Handle) : Prop where
  apart : ∀ {n m : TypeName} {h : Handle}, w.classes.Reached cls n → w.classes.Reached cls m →
    w.FoundFor n h → w.FoundFor m h → n = m
  notSubject : ∀ {n : TypeName}, w.classes.Reached cls n → ¬w.FoundFor n subject

/-- Whether no look-up of a run finds the second declaration unless one ahead of it finds
    the first one. -/
def Leads (w : Hierarchy) (run : List Sighting) (a b : Handle) : Prop :=
  ∀ before e after, run = before ++ e :: after → w.found e = some b →
    ∃ e' ∈ before, w.found e' = some a

variable {w : Hierarchy} {cls : HostType} {subject a b : Handle} {c : Closure} {x y : TypeName}
  {run : List Sighting} {runs : List (List Sighting)}

-- ═══════════════════════════════════════════════════════════════════════
-- The order of the members
-- ═══════════════════════════════════════════════════════════════════════

/-- A member that is added stands behind those that were there. -/
theorem pair_sublist_collect {found : Option Handle}
    (hold : b ∈ c.members → [a, b].Sublist c.members)
    (hnew : found = some b → a ∈ c.members) (hb : b ∈ (c.collect found).members) :
    [a, b].Sublist (c.collect found).members := by
  cases found with
  | none => exact hold hb
  | some k =>
    rw [Closure.collect_some, Closure.members_insert] at hb ⊢
    split at hb
    · next hmem =>
      rw [if_pos hmem]
      exact hold hb
    · next hmem =>
      rw [if_neg hmem]
      rcases List.mem_append.1 hb with hb | hb
      · exact (hold hb).trans (List.sublist_append_left _ _)
      · obtain rfl := List.mem_singleton.1 hb
        exact (List.singleton_sublist.2 (hnew rfl)).append (List.Sublist.refl [b])

/-- A run that leads with one declaration does not add the other in front of it. -/
theorem pair_sublist_follow
    (hlead : ∀ before e after, run = before ++ e :: after → w.found e = some b →
      w.Passes c before → a ∈ (w.follow c before).members)
    (hold : b ∈ c.members → [a, b].Sublist c.members) (hb : b ∈ (w.follow c run).members) :
    [a, b].Sublist (w.follow c run).members := by
  induction run generalizing c with
  | nil => exact hold hb
  | cons e rest ih =>
    by_cases hstop : w.Stops c e
    · rw [follow_of_stops hstop] at hb ⊢
      exact hold hb
    · rw [follow_of_not_stops hstop] at hb ⊢
      refine ih ?_ ?_ hb
      · intro before e' after hsplit hfound hpass
        have hnear := hlead (e :: before) e' after (by rw [hsplit, List.cons_append]) hfound
          ((passes_cons hstop).2 hpass)
        rwa [follow_of_not_stops hstop] at hnear
      · exact pair_sublist_collect hold fun hfound => hlead [] e rest rfl hfound passes_nil

/-- Of two declarations the one that leads in every run stands in front of the other, if
    that is a member at all. -/
theorem pair_sublist_foldl_follow (hlead : ∀ run ∈ runs, w.Leads run a b)
    (hold : b ∈ c.members → [a, b].Sublist c.members) (hb : b ∈ (runs.foldl w.follow c).members) :
    [a, b].Sublist (runs.foldl w.follow c).members := by
  induction runs generalizing c with
  | nil => exact hold hb
  | cons run rest ih =>
    obtain ⟨hfirst, hrest⟩ := List.forall_mem_cons.1 hlead
    refine ih hrest (pair_sublist_follow ?_ hold) hb
    intro before e after hsplit hfound hpass
    obtain ⟨e', he', hfound'⟩ := hfirst before e after hsplit hfound
    exact hpass.mem_follow he' hfound'

-- ═══════════════════════════════════════════════════════════════════════
-- Dominating names
-- ═══════════════════════════════════════════════════════════════════════

namespace DistinctlyFound

variable (hD : w.DistinctlyFound cls subject)
include hD

/-- The declaration of a dominating name leads in every run. -/
theorem leads (hdom : w.classes.Dominates cls x y) (hne : x ≠ y) (hy : w.classes.Reached cls y)
    (ha : w.lookup x = some a) (hb : w.FoundFor y b)
    (hrun : run ∈ w.classes.runs cls) : w.Leads run a b := by
  intro before e after hsplit hfound
  have he : w.classes.Reached cls e.name := reached_of_mem_run hrun (by simp [hsplit])
  obtain rfl : e.name = y := hD.apart he hy (lookup_name_of_found hfound) hb
  exact ⟨.enter x, hdom.enter_mem hne hrun hsplit, ha⟩

/-- The declaration of a dominating name is a member whenever that of the other name is
    one, and stands in front of it. -/
theorem pair_sublist_members (hdom : w.classes.Dominates cls x y) (hne : x ≠ y)
    (hy : w.classes.Reached cls y) (ha : w.lookup x = some a)
    (hb : w.FoundFor y b)
    (hmem : b ∈ (w.closure cls subject).members) :
    [a, b].Sublist (w.closure cls subject).members := by
  rw [closure_eq_foldl] at hmem ⊢
  refine pair_sublist_foldl_follow (fun run hrun => hD.leads hdom hne hy ha hb hrun) ?_ hmem
  intro hsubject
  obtain rfl : b = subject := List.mem_singleton.1 hsubject
  exact absurd hb (hD.notSubject hy)

end DistinctlyFound

end Hierarchy

end FactTypes
