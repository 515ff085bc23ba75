import Mathlib.Logic.Relation
import FactTypes.Proofs.Ancestry.Completeness
import FactTypes.Proofs.Ancestry.Members
import FactTypes.Proofs.Lists

/-!
# What an exploration covers

An exploration calls others, one for each interface of the name that it explores, and is
stopped as soon as one of those is. So it is stopped exactly by a look-up, its own or one
below it, that finds a member of the closure. If there is none, everything that lies
above the name has been looked up: a name on the path is passed over, but the exploration
further out that put it there goes through all its interfaces.
-/

namespace FactTypes

/-- The arguments of one exploration: the names below which it takes place, the closure
    at its start, and the name that is explored. -/
structure Visit where
  path : List TypeName
  closure : Closure
  name : TypeName

/-- Whether a known type mentions another name among its interfaces. -/
def ClassPath.Mentions (p : ClassPath) (n m : TypeName) : Prop :=
  ∃ d, p.find? n = some d ∧ m ∈ d.interfaces

namespace Hierarchy

/-- Whether one exploration calls another: its own look-up does not stop it, and of the
    interfaces of its type those before the other's name are explored to their end. -/
inductive Calls (w : Hierarchy) : Visit → Visit → Prop where
  | interface {path : List TypeName} {c entered before : Closure} {n i : TypeName}
    {d : HostType} {front back : List TypeName} (hpath : n ∉ path)
    (henter : w.enter c n = .ok entered) (hfound : w.classes.find? n = some d)
    (hsplit : d.interfaces = front ++ i :: back)
    (hfront : front.foldlM (w.explore (n :: path)) (d.interfaces.foldl w.gather entered) =
      .ok before) :
    Calls w ⟨path, c, n⟩ ⟨n :: path, before, i⟩

/-- Whether the walk from a type begins an exploration: of one of the type's own
    interfaces, whatever became of those before it, or of one of its superclasses, if
    those before it were explored to their end. -/
inductive Begins (w : Hierarchy) (cls : HostType) (subject : Handle) : Visit → Prop where
  | own {n : TypeName} {front back : List TypeName}
    (hsplit : cls.interfaces = front ++ n :: back) :
    Begins w cls subject
      ⟨[], front.foldl (fun c n => reached (w.explore [] c n)) (.new subject), n⟩
  | up {c : Closure} {n : TypeName} {front back : List TypeName}
    (hsplit : (w.classes.superclasses cls).map HostType.name = front ++ n :: back)
    (hfront : front.foldlM (w.explore []) (w.exploreOwn cls (.new subject)) = .ok c) :
    Begins w cls subject ⟨[], c, n⟩

/-- Whether the look-up of an exploration finds a declaration that is a member already. A
    name on the path is not looked up. -/
def Revisits (w : Hierarchy) (v : Visit) : Prop :=
  v.name ∉ v.path ∧ ∃ h, w.lookup v.name = some h ∧ h ∈ v.closure.members

/-- Whether an exploration reports that it was stopped. -/
def Stopped (w : Hierarchy) (v : Visit) : Prop :=
  ∃ d, w.explore v.path v.closure v.name = .error d

variable {w : Hierarchy} {cls : HostType} {subject h : Handle} {c d : Closure}
  {n m : TypeName} {path : List TypeName} {u v : Visit} {e : Sighting}
  {run before after : List Sighting}

-- ═══════════════════════════════════════════════════════════════════════
-- When an exploration is stopped
-- ═══════════════════════════════════════════════════════════════════════

/-- A call takes place below one more known name. -/
theorem Calls.unmet_lt (hcall : w.Calls u v) : w.classes.unmet v.path < w.classes.unmet u.path := by
  obtain ⟨hpath, -, hfound, -, -⟩ := hcall
  exact ClassPath.unmet_cons_lt hfound hpath

theorem stopped_of_revisits (hagain : w.Revisits v) : w.Stopped v := by
  obtain ⟨hpath, h, hlookup, hmem⟩ := hagain
  exact ⟨v.closure, explore_of_enter_error hpath (sight_of_stops ⟨v.name, h, rfl, hlookup, hmem⟩)⟩

/-- A stop is passed on to the caller. -/
theorem Stopped.of_calls (hstop : w.Stopped v) (hcall : w.Calls u v) : w.Stopped u := by
  obtain ⟨hpath, henter, hfound, hsplit, hfront⟩ := hcall
  obtain ⟨d, hd⟩ := hstop
  refine ⟨d, ?_⟩
  rw [explore_of_known hpath henter hfound]
  exact foldlM_eq_error_iff.2 ⟨_, _, _, _, hsplit, hfront, hd⟩

/-- Whatever stops an exploration is its own look-up or a call. -/
theorem Stopped.revisits_or_calls (hstop : w.Stopped u) :
    w.Revisits u ∨ ∃ v, w.Calls u v ∧ w.Stopped v := by
  obtain ⟨path, c, n⟩ := u
  obtain ⟨d, hd⟩ := hstop
  have hpath : n ∉ path := by
    intro hmem
    rw [explore_of_mem_path hmem] at hd
    cases hd
  by_cases hagain : w.Stops c (.enter n)
  · obtain ⟨m, h, heq, hlookup, hmem⟩ := hagain
    obtain rfl := Sighting.enter.inj heq
    exact Or.inl ⟨hpath, h, hlookup, hmem⟩
  · have henter : w.enter c n = .ok (c.collect (w.found (.enter n))) := sight_of_not_stops hagain
    right
    cases hfound : w.classes.find? n with
    | none =>
      rw [explore_of_unknown hpath henter hfound] at hd
      cases hd
    | some t =>
      rw [explore_of_known hpath henter hfound] at hd
      obtain ⟨front, i, back, before, hsplit, hfront, hd⟩ := foldlM_eq_error_iff.1 hd
      exact ⟨_, .interface hpath henter hfound hsplit hfront, d, hd⟩

/-- An exploration is stopped exactly when a look-up finds a member, be it its own or that
    of an exploration below it. -/
theorem stopped_iff :
    w.Stopped u ↔ ∃ v, Relation.ReflTransGen w.Calls u v ∧ w.Revisits v := by
  constructor
  · intro hstop
    -- every call leaves fewer known names off the path
    induction hk : w.classes.unmet u.path using Nat.strongRecOn generalizing u with
    | ind k ih =>
      rcases hstop.revisits_or_calls with hagain | ⟨v, hcall, hstop⟩
      · exact ⟨u, .refl, hagain⟩
      · obtain ⟨v', hcalls, hagain⟩ := ih _ (hk ▸ hcall.unmet_lt) hstop rfl
        exact ⟨v', .head hcall hcalls, hagain⟩
  · rintro ⟨v, hcalls, hagain⟩
    induction hcalls using Relation.ReflTransGen.head_induction_on with
    | refl => exact stopped_of_revisits hagain
    | head hcall _ ih => exact ih.of_calls hcall

-- ═══════════════════════════════════════════════════════════════════════
-- What an exploration looks up that is not stopped
-- ═══════════════════════════════════════════════════════════════════════

/-- Everything above a name is explored along its itinerary. What is on the path when the
    itinerary comes to it is explored further out. -/
theorem enter_mem_itinerary_of_mentions {p : ClassPath}
    (hm : Relation.ReflTransGen p.Mentions n m) : .enter m ∈ p.itinerary [] n := by
  induction hm with
  | refl => exact ClassPath.enter_mem_itinerary_self List.not_mem_nil
  | tail _ hstep ih =>
    obtain ⟨d, hd, hm⟩ := hstep
    have hgather := ClassPath.gather_mem_itinerary ih hd hm
    exact (ClassPath.enter_mem_of_gather_mem hgather).resolve_left List.not_mem_nil

theorem Passes.of_append (hpass : w.Passes c (before ++ after)) : w.Passes c before := by
  obtain ⟨d, hd⟩ := hpass
  rw [List.foldlM_append] at hd
  cases hbefore : before.foldlM w.sight c with
  | error stopped =>
    rw [hbefore] at hd
    cases hd
  | ok d' => exact ⟨d', hbefore⟩

/-- A run that goes through finds what each of its look-ups finds. -/
theorem Passes.mem_follow (hpass : w.Passes c run) (he : e ∈ run) (hfound : w.found e = some h) :
    h ∈ (w.follow c run).members := by
  obtain ⟨before, after, rfl⟩ := List.append_of_mem he
  exact mem_follow_iff.2 (Or.inr ⟨before, e, after, rfl, hfound, hpass.of_append⟩)

theorem passes_itinerary_iff :
    w.Passes c (w.classes.itinerary path n) ↔ ¬w.Stopped ⟨path, c, n⟩ := by
  rw [Passes, Stopped, ← explore_eq_foldlM]
  cases w.explore path c n <;> simp

/-- An exploration that is not stopped finds everything above its name. -/
theorem mem_of_explore_eq_ok (hd : w.explore [] c n = .ok d)
    (hm : Relation.ReflTransGen w.classes.Mentions n m) (hlookup : w.lookup m = some h) :
    h ∈ d.members := by
  rw [explore_eq_foldlM] at hd
  have hfollow : w.follow c (w.classes.itinerary [] n) = d := by rw [follow, hd, reached]
  rw [← hfollow]
  exact Passes.mem_follow ⟨d, hd⟩ (enter_mem_itinerary_of_mentions hm) hlookup

/-- The ascent goes through if none of the explorations that it begins is stopped. -/
theorem passes_ascent (hgo : ∀ v, w.Begins cls subject v → ¬w.Stopped v) :
    w.Passes (w.exploreOwn cls (.new subject)) (w.classes.ascent cls) := by
  have hascent : w.classes.ascent cls =
      ((w.classes.superclasses cls).map HostType.name).flatMap (w.classes.itinerary []) := by
    rw [List.flatMap_map]
    rfl
  rw [hascent, Passes, ← foldlM_explore_eq]
  cases hall : ((w.classes.superclasses cls).map HostType.name).foldlM (w.explore [])
      (w.exploreOwn cls (.new subject)) with
  | ok d => exact ⟨d, rfl⟩
  | error d =>
    obtain ⟨front, n, back, c, hsplit, hfront, hd⟩ := foldlM_eq_error_iff.1 hall
    exact absurd ⟨d, hd⟩ (hgo _ (.up hsplit hfront))

/-- If none of the explorations that the walk begins is stopped, the closure has the
    declarations of all the names above the type. -/
theorem mem_closure_of_not_stopped (hgo : ∀ v, w.Begins cls subject v → ¬w.Stopped v)
    (hm : w.classes.Reached cls m) (hlookup : w.lookup m = some h) :
    h ∈ (w.closure cls subject).members := by
  obtain ⟨run, hrun, henter⟩ := ClassPath.reached_iff_mem_runs.1 hm
  obtain ⟨before, after, hsplit⟩ := List.append_of_mem henter
  rw [closure_eq_foldl, mem_foldl_follow_iff]
  rcases List.mem_append.1 hrun with hown | hascent
  · obtain ⟨i, hi, rfl⟩ := List.mem_map.1 hown
    obtain ⟨front, back, hinterfaces⟩ := List.append_of_mem hi
    have hpass := passes_itinerary_iff.2 (hgo _ (.own hinterfaces))
    rw [foldl_explore_eq, hsplit] at hpass
    exact Or.inr ⟨front.map (w.classes.itinerary []), _,
      back.map (w.classes.itinerary []) ++ [w.classes.ascent cls], before, _, after,
      ClassPath.runs_of_interfaces_eq hinterfaces, hsplit, hlookup, hpass.of_append⟩
  · obtain rfl := List.mem_singleton.1 hascent
    have hpass := passes_ascent hgo
    rw [exploreOwn, foldl_explore_eq, hsplit] at hpass
    exact Or.inr ⟨cls.interfaces.map (w.classes.itinerary []), _, [], before, _, after, rfl, hsplit,
      hlookup, hpass.of_append⟩

/-- The report of an exploration is exact. One with an empty path is stopped exactly when
    a look-up in its course finds a declaration that is a member already; when it is not
    stopped, the closure at its end has the declarations of the name and of all that are
    reached from it along interfaces of known types. So if none of the explorations that
    the walk from a type begins is stopped, the closure of the type has the declarations of
    all the names above it. -/
theorem explore_signal (w : Hierarchy) :
    (∀ c n, w.Stopped ⟨[], c, n⟩ ↔
        ∃ v, Relation.ReflTransGen w.Calls ⟨[], c, n⟩ v ∧ w.Revisits v) ∧
      (∀ c n d, w.explore [] c n = .ok d → ∀ m h,
        Relation.ReflTransGen w.classes.Mentions n m → w.lookup m = some h → h ∈ d.members) ∧
      ∀ cls subject, (∀ v, w.Begins cls subject v → ¬w.Stopped v) → ∀ m h,
        w.classes.Reached cls m → w.lookup m = some h → h ∈ (w.closure cls subject).members :=
  ⟨fun _ _ => stopped_iff,
    fun _ _ _ hd _ _ hm hlookup => mem_of_explore_eq_ok hd hm hlookup,
    fun _ _ hgo _ _ hm hlookup => mem_closure_of_not_stopped hgo hm hlookup⟩

/-- Two traits that extend each other. The second one extends the root trait as well. -/
def circle : Hierarchy where
  classes := .ofList
    [{ name := ⟨"p.Even"⟩, shape := .interface, interfaces := [⟨"p.Odd"⟩] },
      { name := ⟨"p.Odd"⟩, shape := .interface,
        interfaces := [⟨"p.Even"⟩, ⟨"engine.traits.Thing"⟩] }]
  builtins := (Builtins.seed .empty).2
  packages := .empty

/-- A type that carries the first trait. -/
def circleEntrant : HostType :=
  { name := ⟨"p.Number"⟩, interfaces := [⟨"p.Even"⟩] }

private theorem circle_find_even :
    circle.classes.find? ⟨"p.Even"⟩ =
      some { name := ⟨"p.Even"⟩, shape := .interface, interfaces := [⟨"p.Odd"⟩] } := by
  decide

theorem circle_find_odd :
    circle.classes.find? ⟨"p.Odd"⟩ =
      some { name := ⟨"p.Odd"⟩, shape := .interface,
             interfaces := [⟨"p.Even"⟩, ⟨"engine.traits.Thing"⟩] } := by
  decide

/-- The circle is explored to its end: the second trait comes back to the first, and goes
    on to the root trait. -/
private theorem explore_circle :
    circle.explore [] (.new ⟨9⟩) ⟨"p.Even"⟩ = .ok { subject := ⟨9⟩, ancestors := [⟨3⟩] } := by
  have hthing : circle.explore [⟨"p.Odd"⟩, ⟨"p.Even"⟩] (.new ⟨9⟩) ⟨"engine.traits.Thing"⟩ =
      .ok { subject := ⟨9⟩, ancestors := [⟨3⟩] } :=
    explore_of_unknown (by decide) rfl (by decide)
  -- neither of the two traits is declared
  have henter : circle.enter (.new ⟨9⟩) ⟨"p.Even"⟩ = .ok (.new ⟨9⟩) := rfl
  have henter' : circle.enter (.new ⟨9⟩) ⟨"p.Odd"⟩ = .ok (.new ⟨9⟩) := rfl
  have hodd : circle.explore [⟨"p.Even"⟩] (.new ⟨9⟩) ⟨"p.Odd"⟩ =
      .ok { subject := ⟨9⟩, ancestors := [⟨3⟩] } := by
    rw [explore_of_known (by decide) henter' circle_find_odd]
    show (circle.explore _ (.new ⟨9⟩) ⟨"p.Even"⟩ >>= _) = _
    rw [explore_of_mem_path (by decide)]
    show (circle.explore _ (.new ⟨9⟩) _ >>= _) = _
    rw [hthing]
    rfl
  rw [explore_of_known (by decide) henter circle_find_even]
  show (circle.explore _ (.new ⟨9⟩) _ >>= _) = _
  rw [hodd]
  rfl

private theorem circle_not_stopped (v : Visit) (hv : circle.Begins circleEntrant ⟨9⟩ v) :
    ¬circle.Stopped v := by
  cases hv with
  | @own n front back hsplit =>
    obtain ⟨rfl, rfl⟩ : front = [] ∧ n = ⟨"p.Even"⟩ := by
      cases front with
      | nil => exact ⟨rfl, (List.cons.inj hsplit).1.symm⟩
      | cons x front => cases front <;> cases (List.cons.inj hsplit).2
    rintro ⟨d, hd⟩
    cases explore_circle.symm.trans hd
  | @up c n front back hsplit _ =>
    have hnone : circle.classes.superclasses circleEntrant = [] :=
      ClassPath.chainFrom_none circle.classes _
    rw [hnone] at hsplit
    exact absurd hsplit.symm (by simp)

/-- Nothing stops the walk in the circle, so it does not miss the root trait behind. -/
theorem explore_signal_circle :
    (∀ v, circle.Begins circleEntrant ⟨9⟩ v → ¬circle.Stopped v) ∧
      circle.classes.Reached circleEntrant ⟨"engine.traits.Thing"⟩ ∧
      circle.lookup ⟨"engine.traits.Thing"⟩ = some ⟨3⟩ ∧
      ⟨3⟩ ∈ (circle.closure circleEntrant ⟨9⟩).members := by
  have hreached : circle.classes.Reached circleEntrant ⟨"engine.traits.Thing"⟩ :=
    ⟨.own 0, [1, 0], .mention (.mention (.own rfl) circle_find_even rfl) circle_find_odd rfl⟩
  have hlookup : circle.lookup ⟨"engine.traits.Thing"⟩ = some ⟨3⟩ := by decide
  exact ⟨circle_not_stopped, hreached, hlookup,
    (explore_signal circle).2.2 _ _ circle_not_stopped _ _ hreached hlookup⟩

-- ═══════════════════════════════════════════════════════════════════════
-- What is a member
-- ═══════════════════════════════════════════════════════════════════════

/-- The members of a closure are the subject, which stands first, and behind it
    declarations that are found for names above the type, by their look-up or among the
    filed ones alone. None is a member twice. -/
theorem members_closure_sound (w : Hierarchy) (cls : HostType) (subject : Handle) :
    ∃ others, (w.closure cls subject).members = subject :: others ∧
      (subject :: others).Nodup ∧
      ∀ h ∈ others, ∃ n, w.classes.Reached cls n ∧
        (w.lookup n = some h ∨ w.packages.lookup n = some h) := by
  have hmembers : (w.closure cls subject).members =
      subject :: (w.closure cls subject).ancestors := by
    rw [Closure.members, subject_closure]
  have hnodup := w.nodup_members_closure cls subject
  rw [hmembers] at hnodup
  refine ⟨_, hmembers, hnodup, fun h hother => ?_⟩
  have hmem : h ∈ (w.closure cls subject).members := List.mem_cons_of_mem _ hother
  rw [closure_eq_foldl, mem_foldl_follow_iff] at hmem
  rcases hmem with hsubject |
    ⟨earlier, run, later, before, e, after, hruns, hsplit, hfound, -⟩
  · obtain rfl := List.mem_singleton.1 hsubject
    exact absurd hother (List.nodup_cons.1 hnodup).1
  · have hrun : run ∈ w.classes.runs cls := by simp [hruns]
    exact ⟨e.name, reached_of_mem_run hrun (by simp [hsplit]), lookup_name_of_found hfound⟩

end Hierarchy

end FactTypes
