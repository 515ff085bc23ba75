import FactTypes.Ancestry.Walk

/-!
# The itinerary of an exploration

What an exploration looks up, and in which order, is settled by the class path
alone; what it has found decides only how far it gets. The itinerary lists the
look-ups of an exploration that nothing stops. An exploration follows its
itinerary up to the first declaration that it meets for the second time, so the
recursion is replaced by a run along a list.

## Main definitions

- `Sighting` — one look-up of the walk
- `ClassPath.itinerary` — the look-ups of one exploration, in order
- `ClassPath.runs` — the itineraries of the whole walk, one per own interface
  and one for the ascent
- `Hierarchy.follow` — the closure after a run, up to the stop

## Main statements

- `Hierarchy.explore_eq_foldlM` — an exploration follows its itinerary
- `Hierarchy.closure_eq_foldl` — the closure is that of the runs in turn
- `Hierarchy.mem_follow_iff` — what a run adds
-/

namespace FactTypes

/-- One look-up of the walk. -/
inductive Sighting where
  /-- A name is explored: a declaration that was met already stops the run. -/
  | enter (n : TypeName)
  /-- The declaration filed for an interface is added ahead of its exploration. -/
  | gather (n : TypeName)
deriving DecidableEq

namespace Sighting

/-- The name that is looked up. -/
def name : Sighting → TypeName
  | .enter n => n
  | .gather n => n

/-- The name that is explored. -/
def entered? : Sighting → Option TypeName
  | .enter n => some n
  | .gather _ => none

end Sighting

namespace ClassPath

/-- The look-ups of the exploration of a name below the names of the path, if
    nothing stops it. -/
def itinerary (p : ClassPath) (path : List TypeName) (n : TypeName) : List Sighting :=
  if _hpath : n ∈ path then []
  else
    match _hfound : p.find? n with
    | none => [.enter n]
    | some cls =>
      .enter n :: (cls.interfaces.map .gather ++ cls.interfaces.flatMap (p.itinerary (n :: path)))
termination_by p.unmet path
decreasing_by exact unmet_cons_lt _hfound _hpath

/-- The look-ups of the ascent: those of each superclass, the nearest first. -/
def ascent (p : ClassPath) (cls : HostType) : List Sighting :=
  (p.superclasses cls).flatMap fun s => p.itinerary [] s.name

/-- The itineraries of the walk from a type. A stop ends the run in which it
    happens, and no other. -/
def runs (p : ClassPath) (cls : HostType) : List (List Sighting) :=
  cls.interfaces.map (p.itinerary []) ++ [p.ascent cls]

/-- The names that are explored in a run. -/
def entered (run : List Sighting) : List TypeName :=
  run.filterMap Sighting.entered?

variable {p : ClassPath} {path : List TypeName} {n : TypeName}

theorem itinerary_of_mem_path (h : n ∈ path) : p.itinerary path n = [] := by
  rw [itinerary, dif_pos h]

theorem itinerary_of_unknown (h : n ∉ path) (hfound : p.find? n = none) :
    p.itinerary path n = [.enter n] := by
  rw [itinerary, dif_neg h]
  split
  · rfl
  · simp_all

theorem itinerary_of_known {cls : HostType} (h : n ∉ path) (hfound : p.find? n = some cls) :
    p.itinerary path n =
      .enter n ::
        (cls.interfaces.map .gather ++ cls.interfaces.flatMap (p.itinerary (n :: path))) := by
  rw [itinerary, dif_neg h]
  split
  · simp_all
  · next found hsome =>
    rw [hfound] at hsome
    rw [Option.some.inj hsome]

/-- The three shapes of an itinerary, with the itineraries of the interfaces at
    hand where there are any. Every level leaves fewer known names off the
    path, so the recursion of the walk is an induction here. -/
theorem itinerary_induction {motive : List TypeName → TypeName → Prop} (p : ClassPath)
    (hmem : ∀ path n, n ∈ path → motive path n)
    (hunknown : ∀ path n, n ∉ path → p.find? n = none → motive path n)
    (hknown : ∀ path n cls, n ∉ path → p.find? n = some cls →
      (∀ m, motive (n :: path) m) → motive path n)
    (path : List TypeName) (n : TypeName) : motive path n := by
  induction hk : p.unmet path using Nat.strongRecOn generalizing path n with
  | ind k ih =>
    by_cases hpath : n ∈ path
    · exact hmem path n hpath
    · cases hfound : p.find? n with
      | none => exact hunknown path n hpath hfound
      | some cls =>
        have hless : p.unmet (n :: path) < k := hk ▸ unmet_cons_lt hfound hpath
        exact hknown path n cls hpath hfound fun m => ih _ hless (n :: path) m rfl

/-- An own interface has a run of its own among the others. -/
theorem runs_of_interfaces_eq {cls : HostType} {front back : List TypeName}
    (hsplit : cls.interfaces = front ++ n :: back) :
    p.runs cls = front.map (p.itinerary []) ++
      p.itinerary [] n :: (back.map (p.itinerary []) ++ [p.ascent cls]) := by
  rw [runs, hsplit, List.map_append, List.map_cons, List.append_assoc, List.cons_append]

theorem mem_entered {run : List Sighting} : n ∈ entered run ↔ .enter n ∈ run := by
  rw [entered, List.mem_filterMap]
  constructor
  · rintro ⟨e, he, hn⟩
    cases e with
    | enter m =>
      obtain rfl := Option.some.inj hn
      exact he
    | gather m => cases hn
  · intro h
    exact ⟨.enter n, h, rfl⟩

theorem entered_append (run rest : List Sighting) :
    entered (run ++ rest) = entered run ++ entered rest :=
  List.filterMap_append

theorem entered_map_gather (ns : List TypeName) : entered (ns.map .gather) = [] := by
  rw [entered, List.filterMap_map]
  exact List.filterMap_eq_nil_iff.2 fun _ _ => rfl

theorem entered_flatMap {α : Type} (as : List α) (f : α → List Sighting) :
    entered (as.flatMap f) = as.flatMap fun a => entered (f a) := by
  induction as with
  | nil => rfl
  | cons a rest ih => rw [List.flatMap_cons, entered_append, ih, List.flatMap_cons]

theorem entered_itinerary_of_known {cls : HostType} (h : n ∉ path)
    (hfound : p.find? n = some cls) :
    entered (p.itinerary path n) =
      n :: cls.interfaces.flatMap fun i => entered (p.itinerary (n :: path) i) := by
  rw [itinerary_of_known h hfound]
  show n :: entered (_ ++ _) = _
  rw [entered_append, entered_map_gather, entered_flatMap, List.nil_append]

end ClassPath

namespace Closure

/-- The closure with what a look-up has found, if it has found anything. -/
def collect (c : Closure) (found : Option Handle) : Closure :=
  found.elim c c.insert

variable {c : Closure} {h k : Handle} {found : Option Handle}

@[simp] theorem collect_none : c.collect none = c := rfl

@[simp] theorem collect_some : c.collect (some h) = c.insert h := rfl

theorem mem_members_collect : h ∈ (c.collect found).members ↔ h ∈ c.members ∨ found = some h := by
  cases found with
  | none => simp
  | some k => simp [eq_comm]

end Closure

namespace Hierarchy

variable (w : Hierarchy)

/-- The declaration that a look-up finds. -/
def found : Sighting → Option Handle
  | .enter n => w.lookup n
  | .gather n => w.packages.lookup n

/-- Makes one look-up. -/
def sight (c : Closure) : Sighting → Except Closure Closure
  | .enter n => w.enter c n
  | .gather n => .ok (w.gather c n)

/-- Whether a look-up stops the run: an explored name finds a member. -/
def Stops (c : Closure) (e : Sighting) : Prop :=
  ∃ n h, e = .enter n ∧ w.lookup n = some h ∧ h ∈ c.members

/-- Whether the look-ups are all made, none of them being a stop. -/
def Passes (c : Closure) (run : List Sighting) : Prop :=
  ∃ d, run.foldlM w.sight c = .ok d

/-- The closure after a run, which ends early at a stop. -/
def follow (c : Closure) (run : List Sighting) : Closure :=
  reached (run.foldlM w.sight c)

variable {w} {path : List TypeName} {c d : Closure} {n : TypeName} {e : Sighting}
  {h : Handle} {run : List Sighting}

-- ═══════════════════════════════════════════════════════════════════════
-- The walk along its itineraries
-- ═══════════════════════════════════════════════════════════════════════

theorem foldlM_sight_map_gather (ns : List TypeName) (c : Closure) :
    (ns.map Sighting.gather).foldlM w.sight c = .ok (ns.foldl w.gather c) := by
  induction ns generalizing c with
  | nil => rfl
  | cons n rest ih => exact ih (w.gather c n)

theorem foldlM_sight_flatMap {α : Type} (as : List α) (f : α → List Sighting)
    (g : Closure → α → Except Closure Closure)
    (heq : ∀ c a, g c a = (f a).foldlM w.sight c) (c : Closure) :
    as.foldlM g c = (as.flatMap f).foldlM w.sight c := by
  induction as generalizing c with
  | nil => rfl
  | cons a rest ih =>
    rw [List.foldlM_cons, List.flatMap_cons, List.foldlM_append, heq]
    exact bind_congr ih

/-- An exploration follows its itinerary. -/
theorem explore_eq_foldlM (w : Hierarchy) (path : List TypeName) (c : Closure) (n : TypeName) :
    w.explore path c n = (w.classes.itinerary path n).foldlM w.sight c := by
  refine ClassPath.itinerary_induction (p := w.classes)
    (motive := fun path n => ∀ c, w.explore path c n =
      (w.classes.itinerary path n).foldlM w.sight c) ?_ ?_ ?_ path n c
  · intro path n hpath c
    rw [explore_of_mem_path hpath, ClassPath.itinerary_of_mem_path hpath]
    rfl
  · intro path n hpath hfound c
    rw [ClassPath.itinerary_of_unknown hpath hfound, List.foldlM_cons]
    show _ = w.enter c n >>= fun d => .ok d
    cases henter : w.enter c n with
    | error stopped => exact explore_of_enter_error hpath henter
    | ok entered => exact explore_of_unknown hpath henter hfound
  · intro path n cls hpath hfound ih c
    rw [ClassPath.itinerary_of_known hpath hfound, List.foldlM_cons]
    show _ = w.enter c n >>= _
    cases henter : w.enter c n with
    | error stopped => exact explore_of_enter_error hpath henter
    | ok entered =>
      rw [explore_of_known hpath henter hfound]
      show _ = (cls.interfaces.map Sighting.gather ++ _).foldlM w.sight entered
      rw [List.foldlM_append, foldlM_sight_map_gather]
      exact foldlM_sight_flatMap cls.interfaces _ _ (fun c m => ih m c) _

/-- Explorations of which none stops the others follow their itineraries in turn. -/
theorem foldl_explore_eq (w : Hierarchy) (ns : List TypeName) (c : Closure) :
    ns.foldl (fun c n => reached (w.explore [] c n)) c =
      (ns.map (w.classes.itinerary [])).foldl w.follow c := by
  rw [List.foldl_map]
  congr 1
  funext c n
  rw [explore_eq_foldlM]
  rfl

/-- Explorations of which the first to be stopped stops the others follow one itinerary. -/
theorem foldlM_explore_eq (w : Hierarchy) (ns : List TypeName) (c : Closure) :
    ns.foldlM (w.explore []) c = (ns.flatMap (w.classes.itinerary [])).foldlM w.sight c :=
  foldlM_sight_flatMap ns _ _ (fun c n => explore_eq_foldlM w [] c n) c

/-- The walk makes its runs one after the other. -/
theorem closure_eq_foldl (w : Hierarchy) (cls : HostType) (subject : Handle) :
    w.closure cls subject = (w.classes.runs cls).foldl w.follow (.new subject) := by
  have hascend : ∀ c, w.ascend cls c = w.follow c (w.classes.ascent cls) := by
    intro c
    rw [ascend, foldlM_explore_eq, List.flatMap_map]
    rfl
  rw [closure, exploreOwn, foldl_explore_eq, hascend, ClassPath.runs, List.foldl_append]
  rfl

-- ═══════════════════════════════════════════════════════════════════════
-- One look-up
-- ═══════════════════════════════════════════════════════════════════════

theorem sight_of_stops (hstop : w.Stops c e) : w.sight c e = .error c := by
  obtain ⟨n, h, rfl, hlookup, hmem⟩ := hstop
  have hrefused : c.insert? h = none := Closure.insert?_eq_none_iff.2 hmem
  show w.enter c n = _
  simp only [enter, hlookup, hrefused]

/-- A look-up that does not stop the run adds what it finds. -/
theorem sight_of_not_stops (hgo : ¬w.Stops c e) :
    w.sight c e = .ok (c.collect (w.found e)) := by
  cases e with
  | enter n =>
    show w.enter c n = .ok (c.collect (w.lookup n))
    cases hlookup : w.lookup n with
    | none => simp only [enter, hlookup, Closure.collect_none]
    | some k =>
      have hnew : k ∉ c.members := fun hmem => hgo ⟨n, k, rfl, hlookup, hmem⟩
      cases hinsert : c.insert? k with
      | none => exact absurd (Closure.insert?_eq_none_iff.1 hinsert) hnew
      | some d =>
        simp only [enter, hlookup, hinsert, Closure.collect_some]
        rw [Closure.insert, hinsert, Option.getD_some]
  | gather n =>
    show Except.ok (w.gather c n) = .ok (c.collect (w.packages.lookup n))
    cases hlookup : w.packages.lookup n with
    | none => simp only [gather, hlookup, Closure.collect_none]
    | some k => simp only [gather, hlookup, Closure.collect_some]

-- ═══════════════════════════════════════════════════════════════════════
-- Runs
-- ═══════════════════════════════════════════════════════════════════════

theorem passes_nil : w.Passes c [] :=
  ⟨c, rfl⟩

theorem foldlM_sight_of_stops (hstop : w.Stops c e) :
    (e :: run).foldlM w.sight c = .error c := by
  rw [List.foldlM_cons, sight_of_stops hstop]
  rfl

theorem foldlM_sight_of_not_stops (hgo : ¬w.Stops c e) :
    (e :: run).foldlM w.sight c = run.foldlM w.sight (c.collect (w.found e)) := by
  rw [List.foldlM_cons, sight_of_not_stops hgo]
  rfl

theorem passes_cons (hgo : ¬w.Stops c e) :
    w.Passes c (e :: run) ↔ w.Passes (c.collect (w.found e)) run := by
  rw [Passes, Passes, foldlM_sight_of_not_stops hgo]

theorem not_passes_of_stops (hstop : w.Stops c e) : ¬w.Passes c (e :: run) := by
  rintro ⟨d, hd⟩
  rw [foldlM_sight_of_stops hstop] at hd
  cases hd

@[simp] theorem follow_nil : w.follow c [] = c := rfl

theorem follow_of_stops (hstop : w.Stops c e) : w.follow c (e :: run) = c := by
  rw [follow, foldlM_sight_of_stops hstop]
  rfl

theorem follow_of_not_stops (hgo : ¬w.Stops c e) :
    w.follow c (e :: run) = w.follow (c.collect (w.found e)) run := by
  rw [follow, foldlM_sight_of_not_stops hgo, follow]

/-- A run goes through exactly when no name that it explores finds a member of
    the closure at its start or a declaration found before in the run. -/
theorem passes_iff {c : Closure} {run : List Sighting} :
    w.Passes c run ↔ ∀ before n after h, run = before ++ .enter n :: after →
      w.lookup n = some h → h ∉ c.members ∧ ∀ e ∈ before, w.found e ≠ some h := by
  induction run generalizing c with
  | nil =>
    refine iff_of_true passes_nil ?_
    intro before n after h hsplit
    exact absurd hsplit.symm (by simp)
  | cons e rest ih =>
    by_cases hstop : w.Stops c e
    · refine iff_of_false (not_passes_of_stops hstop) fun hall => ?_
      obtain ⟨n, h, rfl, hlookup, hmem⟩ := hstop
      exact (hall [] n rest h rfl hlookup).1 hmem
    · rw [passes_cons hstop, ih]
      constructor
      · intro hall before n after h hsplit hlookup
        cases before with
        | nil =>
          obtain ⟨rfl, rfl⟩ := List.cons.inj hsplit
          exact ⟨fun hc => hstop ⟨n, h, rfl, hlookup, hc⟩, by simp⟩
        | cons e' before =>
          obtain ⟨rfl, hrest⟩ := List.cons.inj hsplit
          obtain ⟨hd, hbefore⟩ := hall before n after h hrest hlookup
          rw [Closure.mem_members_collect, not_or] at hd
          exact ⟨hd.1, List.forall_mem_cons.2 ⟨hd.2, hbefore⟩⟩
      · intro hall before n after h hsplit hlookup
        obtain ⟨hc, hbefore⟩ :=
          hall (e :: before) n after h (by rw [hsplit, List.cons_append]) hlookup
        obtain ⟨hfirst, hothers⟩ := List.forall_mem_cons.1 hbefore
        refine ⟨?_, hothers⟩
        rw [Closure.mem_members_collect, not_or]
        exact ⟨hc, hfirst⟩

/-- A run adds what is found by each look-up that it comes to. -/
theorem mem_follow_iff {c : Closure} {run : List Sighting} {h : Handle} :
    h ∈ (w.follow c run).members ↔ h ∈ c.members ∨
      ∃ before e after, run = before ++ e :: after ∧ w.found e = some h ∧
        w.Passes c before := by
  induction run generalizing c with
  | nil => simp
  | cons e rest ih =>
    by_cases hstop : w.Stops c e
    · rw [follow_of_stops hstop]
      refine ⟨Or.inl, ?_⟩
      rintro (hc | ⟨before, e', after, hsplit, hfound, hpass⟩)
      · exact hc
      · cases before with
        | nil =>
          -- the stop itself finds nothing but a member
          obtain ⟨rfl, rfl⟩ := List.cons.inj hsplit
          obtain ⟨n, k, rfl, hlookup, hmem⟩ := hstop
          obtain rfl : k = h := Option.some.inj (hlookup.symm.trans hfound)
          exact hmem
        | cons e'' before =>
          obtain ⟨rfl, -⟩ := List.cons.inj hsplit
          exact absurd hpass (not_passes_of_stops hstop)
    · rw [follow_of_not_stops hstop, ih, Closure.mem_members_collect]
      constructor
      · rintro ((hc | hfound) | ⟨before, e', after, rfl, hfound, hpass⟩)
        · exact Or.inl hc
        · exact Or.inr ⟨[], e, rest, rfl, hfound, passes_nil⟩
        · exact Or.inr ⟨e :: before, e', after, rfl, hfound, (passes_cons hstop).2 hpass⟩
      · rintro (hc | ⟨before, e', after, hsplit, hfound, hpass⟩)
        · exact Or.inl (Or.inl hc)
        · cases before with
          | nil =>
            obtain ⟨rfl, -⟩ := List.cons.inj hsplit
            exact Or.inl (Or.inr hfound)
          | cons e'' before =>
            obtain ⟨rfl, hrest⟩ := List.cons.inj hsplit
            exact Or.inr ⟨before, e', after, hrest, hfound, (passes_cons hstop).1 hpass⟩

/-- The members at the end of several runs: those at the start, and what each
    run added to the closure that it found. -/
theorem mem_foldl_follow_iff {runs : List (List Sighting)} {c : Closure} {h : Handle} :
    h ∈ (runs.foldl w.follow c).members ↔ h ∈ c.members ∨
      ∃ earlier run later before e after, runs = earlier ++ run :: later ∧
        run = before ++ e :: after ∧ w.found e = some h ∧
        w.Passes (earlier.foldl w.follow c) before := by
  induction runs generalizing c with
  | nil => simp
  | cons first rest ih =>
    rw [List.foldl_cons, ih, mem_follow_iff]
    constructor
    · rintro ((hc | ⟨before, e, after, hsplit, hfound, hpass⟩) |
        ⟨earlier, run, later, before, e, after, rfl, hsplit, hfound, hpass⟩)
      · exact Or.inl hc
      · exact Or.inr ⟨[], first, rest, before, e, after, rfl, hsplit, hfound, hpass⟩
      · exact Or.inr ⟨first :: earlier, run, later, before, e, after, rfl, hsplit, hfound, hpass⟩
    · rintro (hc | ⟨earlier, run, later, before, e, after, hruns, hsplit, hfound, hpass⟩)
      · exact Or.inl (Or.inl hc)
      · cases earlier with
        | nil =>
          obtain ⟨rfl, -⟩ := List.cons.inj hruns
          exact Or.inl (Or.inr ⟨before, e, after, hsplit, hfound, hpass⟩)
        | cons run' earlier =>
          obtain ⟨rfl, hrest⟩ := List.cons.inj hruns
          exact Or.inr ⟨earlier, run, later, before, e, after, hrest, hsplit, hfound, hpass⟩

end Hierarchy

end FactTypes
