import FactTypes.Proofs.Ancestry.Coverage

/-!
# How far the ascent gets

The walk from a type always makes the first look-up of each of its runs: every interface
that the type names itself is explored, whatever became of those before it, and so is the
nearest superclass. Behind that the ascent goes on from superclass to superclass until one
of the explorations is stopped. This is the last one of the walk.
-/

namespace FactTypes

namespace ClassPath

variable {p : ClassPath} {path : List TypeName} {n : TypeName} {e : Sighting}

/-- Whatever an itinerary looks up is reached from its name along interfaces. -/
theorem mentions_of_mem_itinerary (he : e ∈ p.itinerary path n) :
    Relation.ReflTransGen p.Mentions n e.name := by
  refine itinerary_induction (p := p)
    (motive := fun path n => e ∈ p.itinerary path n → Relation.ReflTransGen p.Mentions n e.name)
    ?_ ?_ ?_ path n he
  · intro path n hpath he
    rw [itinerary_of_mem_path hpath] at he
    exact absurd he List.not_mem_nil
  · intro path n hpath hfound he
    rw [itinerary_of_unknown hpath hfound, List.mem_singleton] at he
    rw [he]
    exact .refl
  · intro path n d hpath hfound ih he
    rw [itinerary_of_known hpath hfound, List.mem_cons, List.mem_append, List.mem_flatMap] at he
    rcases he with rfl | he | ⟨i, hi, he⟩
    · exact .refl
    · obtain ⟨i, hi, rfl⟩ := List.mem_map.1 he
      exact .single ⟨d, hfound, hi⟩
    · exact .head ⟨d, hfound, hi⟩ (ih i he)

/-- The exploration of a name that is not on the path begins with its own look-up. -/
theorem exists_itinerary_eq_cons (p : ClassPath) (hpath : n ∉ path) :
    ∃ rest, p.itinerary path n = .enter n :: rest := by
  cases hfound : p.find? n with
  | none => exact ⟨_, itinerary_of_unknown hpath hfound⟩
  | some d => exact ⟨_, itinerary_of_known hpath hfound⟩

end ClassPath

namespace Hierarchy

/-- Whether a declaration is found for a name, by its look-up or among the filed ones
    alone. -/
def FoundFor (w : Hierarchy) (n : TypeName) (h : Handle) : Prop :=
  w.lookup n = some h ∨ w.packages.lookup n = some h

instance (w : Hierarchy) (n : TypeName) (h : Handle) : Decidable (w.FoundFor n h) :=
  inferInstanceAs (Decidable (_ ∨ _))

/-- Whether the ascent comes to a superclass behind the given ones, with the given
    closure: those have all been explored to their end. -/
def AscendsTo (w : Hierarchy) (cls : HostType) (subject : Handle) (front : List HostType)
    (s : HostType) (c : Closure) : Prop :=
  (∃ back, w.classes.superclasses cls = front ++ s :: back) ∧
    (front.map HostType.name).foldlM (w.explore []) (w.exploreOwn cls (.new subject)) = .ok c

variable {w : Hierarchy} {cls s s' : HostType} {subject h : Handle} {c c' d : Closure}
  {n : TypeName} {front front' : List HostType} {run : List Sighting}
  {runs earlier later : List (List Sighting)}

-- ═══════════════════════════════════════════════════════════════════════
-- What is always explored
-- ═══════════════════════════════════════════════════════════════════════

/-- The first look-up of a run is made in any case. -/
theorem mem_closure_of_first (hruns : w.classes.runs cls = earlier ++ run :: later)
    (hfirst : ∃ rest, run = .enter n :: rest) (hlookup : w.lookup n = some h) :
    h ∈ (w.closure cls subject).members := by
  obtain ⟨rest, hrest⟩ := hfirst
  rw [closure_eq_foldl, mem_foldl_follow_iff]
  exact Or.inr ⟨earlier, run, later, [], .enter n, rest, hruns, hrest, hlookup, passes_nil⟩

/-- An interface of the type itself is explored whatever became of those before it. -/
theorem mem_closure_of_own (hn : n ∈ cls.interfaces) (hlookup : w.lookup n = some h) :
    h ∈ (w.closure cls subject).members := by
  obtain ⟨front, back, hsplit⟩ := List.append_of_mem hn
  exact mem_closure_of_first (ClassPath.runs_of_interfaces_eq hsplit)
    (w.classes.exists_itinerary_eq_cons List.not_mem_nil) hlookup

/-- The nearest superclass is explored whatever became of the interfaces. -/
theorem mem_closure_of_nearest (hs : (w.classes.superclasses cls).head? = some s)
    (hlookup : w.lookup s.name = some h) : h ∈ (w.closure cls subject).members := by
  obtain ⟨farther, hchain⟩ := List.head?_eq_some_iff.1 hs
  obtain ⟨rest, hrest⟩ := w.classes.exists_itinerary_eq_cons (List.not_mem_nil (a := s.name))
  have hascent : ∃ rest, w.classes.ascent cls = .enter s.name :: rest := by
    rw [ClassPath.ascent, hchain, List.flatMap_cons, hrest]
    exact ⟨_, rfl⟩
  exact mem_closure_of_first rfl hascent hlookup

-- ═══════════════════════════════════════════════════════════════════════
-- Where the ascent ends
-- ═══════════════════════════════════════════════════════════════════════

/-- An exploration that is stopped is the last one of the ascent. -/
theorem foldlM_explore_of_stopped (hs : w.AscendsTo cls subject front s c)
    (hd : w.explore [] c s.name = .error d) (back : List HostType) :
    ((front ++ s :: back).map HostType.name).foldlM (w.explore [])
      (w.exploreOwn cls (.new subject)) = .error d := by
  rw [List.map_append, List.map_cons]
  exact foldlM_eq_error_iff.2 ⟨_, _, _, c, rfl, hs.2, hd⟩

/-- So the walk leaves the closure as that exploration has left it. -/
theorem closure_eq_of_stopped (hs : w.AscendsTo cls subject front s c)
    (hstop : w.Stopped ⟨[], c, s.name⟩) :
    w.closure cls subject = reached (w.explore [] c s.name) := by
  obtain ⟨d, hd⟩ := hstop
  obtain ⟨back, hsplit⟩ := hs.1
  rw [closure, ascend, hsplit, foldlM_explore_of_stopped hs hd, hd]

/-- The ascent does not come to a superclass behind it. -/
theorem mem_of_ascendsTo (hs : w.AscendsTo cls subject front s c)
    (hstop : w.Stopped ⟨[], c, s.name⟩) (hs' : w.AscendsTo cls subject front' s' c') :
    s' ∈ front ++ [s] := by
  obtain ⟨d, hd⟩ := hstop
  obtain ⟨back, hsplit⟩ := hs.1
  obtain ⟨back', hsplit'⟩ := hs'.1
  rw [hsplit, List.append_cons] at hsplit'
  rcases split_append hsplit' with ⟨rest, hfront⟩ | ⟨between, hfront', -⟩
  · rw [hfront]
    exact List.mem_append_cons_self
  · -- `s` would have been explored to its end on the way to `s'`
    have hgo := hs'.2
    rw [hfront', List.append_assoc, List.singleton_append,
      foldlM_explore_of_stopped hs hd between] at hgo
    cases hgo

/-- The closure is that of the runs up to the stop. -/
theorem closure_eq_foldl_of_stopped (hs : w.AscendsTo cls subject front s c)
    (hstop : w.Stopped ⟨[], c, s.name⟩) :
    w.closure cls subject =
      (cls.interfaces.map (w.classes.itinerary []) ++
          [((front ++ [s]).map HostType.name).flatMap (w.classes.itinerary [])]).foldl
        w.follow (.new subject) := by
  obtain ⟨d, hd⟩ := hstop
  rw [closure_eq_of_stopped hs ⟨d, hd⟩, List.foldl_append, ← foldl_explore_eq, List.foldl_cons,
    List.foldl_nil, follow, ← foldlM_explore_eq, ← exploreOwn, foldlM_explore_of_stopped hs hd [],
    hd]

/-- What several runs add is found by their look-ups. -/
theorem exists_found_of_mem_foldl_follow (hmem : h ∈ (runs.foldl w.follow c).members) :
    h ∈ c.members ∨ ∃ run ∈ runs, ∃ e ∈ run, w.found e = some h := by
  rcases mem_foldl_follow_iff.1 hmem with hold |
    ⟨earlier, run, later, before, e, after, rfl, hsplit, hfound, -⟩
  · exact Or.inl hold
  · exact Or.inr ⟨run, by simp, e, by simp [hsplit], hfound⟩

/-- With the ascent stopped at a superclass, every other member than the subject is found
    for a name that is reached from an interface of the type itself or from one of the
    superclasses up to that one. -/
theorem exists_root_of_mem_closure (hs : w.AscendsTo cls subject front s c)
    (hstop : w.Stopped ⟨[], c, s.name⟩) (hmem : h ∈ (w.closure cls subject).members) :
    h = subject ∨ ∃ r n, (r ∈ cls.interfaces ∨ r ∈ (front ++ [s]).map HostType.name) ∧
      Relation.ReflTransGen w.classes.Mentions r n ∧ w.FoundFor n h := by
  rw [closure_eq_foldl_of_stopped hs hstop] at hmem
  rcases exists_found_of_mem_foldl_follow hmem with hsubject | ⟨run, hrun, e, he, hfound⟩
  · exact Or.inl (List.mem_singleton.1 hsubject)
  · right
    have hroot : ∃ r, (r ∈ cls.interfaces ∨ r ∈ (front ++ [s]).map HostType.name) ∧
        e ∈ w.classes.itinerary [] r := by
      rcases List.mem_append.1 hrun with hown | hascent
      · obtain ⟨r, hr, rfl⟩ := List.mem_map.1 hown
        exact ⟨r, Or.inl hr, he⟩
      · obtain rfl := List.mem_singleton.1 hascent
        obtain ⟨r, hr, he⟩ := List.mem_flatMap.1 he
        exact ⟨r, Or.inr hr, he⟩
    obtain ⟨r, hr, he⟩ := hroot
    exact ⟨r, e.name, hr, ClassPath.mentions_of_mem_itinerary he, lookup_name_of_found hfound⟩

/-- However many explorations are stopped, the closure has the declarations of all the
    interfaces that the type names itself, and that of its nearest superclass. If the
    exploration of a superclass is stopped, it is the last one of the walk: the ascent
    comes to no superclass behind it, and every member of the closure but the subject is
    found for a name that is reached from an interface of the type itself, from that
    superclass or from a nearer one. -/
theorem closure_explores_up_to_stop (w : Hierarchy) (cls : HostType) (subject : Handle) :
    (∀ n ∈ cls.interfaces, ∀ h, w.lookup n = some h → h ∈ (w.closure cls subject).members) ∧
      (∀ s, (w.classes.superclasses cls).head? = some s →
        ∀ h, w.lookup s.name = some h → h ∈ (w.closure cls subject).members) ∧
      ∀ front s c, w.AscendsTo cls subject front s c → w.Stopped ⟨[], c, s.name⟩ →
        w.closure cls subject = reached (w.explore [] c s.name) ∧
        (∀ front' s' c', w.AscendsTo cls subject front' s' c' → s' ∈ front ++ [s]) ∧
        ∀ h ∈ (w.closure cls subject).members, h = subject ∨
          ∃ r n, (r ∈ cls.interfaces ∨ r ∈ (front ++ [s]).map HostType.name) ∧
            Relation.ReflTransGen w.classes.Mentions r n ∧ w.FoundFor n h :=
  ⟨fun _ hn _ hlookup => mem_closure_of_own hn hlookup,
    fun _ hs _ hlookup => mem_closure_of_nearest hs hlookup,
    fun _ _ _ hs hstop => ⟨closure_eq_of_stopped hs hstop,
      fun _ _ _ hs' => mem_of_ascendsTo hs hstop hs',
      fun _ hmem => exists_root_of_mem_closure hs hstop hmem⟩⟩

-- ═══════════════════════════════════════════════════════════════════════
-- An ascent that stops
-- ═══════════════════════════════════════════════════════════════════════

/-- A type that carries a trait and has a superclass. -/
def vehicle : HostType :=
  { name := ⟨"p.Vehicle"⟩, superclass := some ⟨"p.Asset"⟩, interfaces := [⟨"p.Locatable"⟩] }

/-- A type below it, which carries the trait itself as well. -/
def truck : HostType :=
  { name := ⟨"p.Truck"⟩, superclass := some ⟨"p.Vehicle"⟩, interfaces := [⟨"p.Locatable"⟩] }

/-- The trait, the first type and its superclass, all three declared. -/
def depot : Hierarchy :=
  let (store, builtins) := Builtins.seed .empty
  let (a, store) := store.alloc (.declared ⟨"p.Locatable"⟩)
  let (b, store) := store.alloc (.declared vehicle.name)
  let (c, store) := store.alloc (.declared ⟨"p.Asset"⟩)
  { classes := .ofList
      [{ name := ⟨"p.Locatable"⟩, shape := .interface }, vehicle, { name := ⟨"p.Asset"⟩ }]
    builtins
    packages := ((Packages.empty.declare store a).declare store b).declare store c }

private theorem depot_find_locatable :
    depot.classes.find? ⟨"p.Locatable"⟩ =
      some { name := ⟨"p.Locatable"⟩, shape := .interface } := by
  decide

private theorem depot_find_vehicle :
    depot.classes.find? ⟨"p.Vehicle"⟩ = some vehicle := by
  decide

private theorem depot_find_asset :
    depot.classes.find? ⟨"p.Asset"⟩ = some { name := ⟨"p.Asset"⟩ } := by
  decide

private theorem superclasses_truck :
    depot.classes.superclasses truck = [vehicle, { name := ⟨"p.Asset"⟩ }] := by
  show depot.classes.chainFrom _ (some ⟨"p.Vehicle"⟩) = _
  rw [ClassPath.chainFrom_of_known (by decide) depot_find_vehicle]
  show _ :: depot.classes.chainFrom _ (some ⟨"p.Asset"⟩) = _
  rw [ClassPath.chainFrom_of_known (by decide) depot_find_asset]
  exact congrArg _ (congrArg _ (ClassPath.chainFrom_none _ _))

private theorem exploreOwn_truck :
    depot.exploreOwn truck (.new ⟨7⟩) = { subject := ⟨7⟩, ancestors := [⟨4⟩] } := by
  show reached (depot.explore [] (.new ⟨7⟩) ⟨"p.Locatable"⟩) = _
  have henter : depot.enter (.new ⟨7⟩) ⟨"p.Locatable"⟩ =
      .ok { subject := ⟨7⟩, ancestors := [⟨4⟩] } := rfl
  rw [explore_of_known List.not_mem_nil henter depot_find_locatable]
  rfl

/-- The superclass finds its trait among the members. -/
private theorem explore_depot_vehicle :
    depot.explore [] { subject := ⟨7⟩, ancestors := [⟨4⟩] } ⟨"p.Vehicle"⟩ =
      .error { subject := ⟨7⟩, ancestors := [⟨4⟩, ⟨5⟩] } := by
  have henter : depot.enter { subject := ⟨7⟩, ancestors := [⟨4⟩] } ⟨"p.Vehicle"⟩ =
      .ok { subject := ⟨7⟩, ancestors := [⟨4⟩, ⟨5⟩] } := rfl
  have hagain : depot.enter { subject := ⟨7⟩, ancestors := [⟨4⟩, ⟨5⟩] } ⟨"p.Locatable"⟩ =
      .error { subject := ⟨7⟩, ancestors := [⟨4⟩, ⟨5⟩] } := rfl
  rw [explore_of_known List.not_mem_nil henter depot_find_vehicle]
  show (depot.explore _ { subject := ⟨7⟩, ancestors := [⟨4⟩, ⟨5⟩] } ⟨"p.Locatable"⟩ >>= _) = _
  rw [explore_of_enter_error (by decide) hagain]
  rfl

/-- The trait leads nowhere. -/
private theorem eq_of_mentions_locatable {n : TypeName}
    (hn : Relation.ReflTransGen depot.classes.Mentions ⟨"p.Locatable"⟩ n) :
    n = ⟨"p.Locatable"⟩ := by
  rcases hn.cases_head with rfl | ⟨m, ⟨d, hd, hm⟩, -⟩
  · rfl
  · obtain rfl := Option.some.inj (depot_find_locatable.symm.trans hd)
    exact absurd hm List.not_mem_nil

private theorem mem_of_mentions_vehicle {n : TypeName}
    (hn : Relation.ReflTransGen depot.classes.Mentions ⟨"p.Vehicle"⟩ n) :
    n = ⟨"p.Vehicle"⟩ ∨ n = ⟨"p.Locatable"⟩ := by
  rcases hn.cases_head with rfl | ⟨m, ⟨d, hd, hm⟩, hn⟩
  · exact Or.inl rfl
  · obtain rfl := Option.some.inj (depot_find_vehicle.symm.trans hd)
    obtain rfl := List.mem_singleton.1 hm
    exact Or.inr (eq_of_mentions_locatable hn)

/-- The trait and the nearest superclass are members. The exploration of that superclass
    is stopped, so the farther one is not found, declared as it is. -/
theorem closure_truck_ends_at_vehicle :
    ⟨4⟩ ∈ (depot.closure truck ⟨7⟩).members ∧ ⟨5⟩ ∈ (depot.closure truck ⟨7⟩).members ∧
      depot.AscendsTo truck ⟨7⟩ [] vehicle { subject := ⟨7⟩, ancestors := [⟨4⟩] } ∧
      depot.Stopped ⟨[], { subject := ⟨7⟩, ancestors := [⟨4⟩] }, vehicle.name⟩ ∧
      depot.lookup ⟨"p.Asset"⟩ = some ⟨6⟩ ∧ ⟨6⟩ ∉ (depot.closure truck ⟨7⟩).members := by
  obtain ⟨hown, hnearest, hup⟩ := closure_explores_up_to_stop depot truck ⟨7⟩
  have hhead : (depot.classes.superclasses truck).head? = some vehicle := by
    rw [superclasses_truck]
    rfl
  have hcomes : depot.AscendsTo truck ⟨7⟩ [] vehicle { subject := ⟨7⟩, ancestors := [⟨4⟩] } :=
    ⟨⟨_, superclasses_truck⟩, congrArg Except.ok exploreOwn_truck⟩
  have hstop : depot.Stopped ⟨[], { subject := ⟨7⟩, ancestors := [⟨4⟩] }, vehicle.name⟩ :=
    ⟨_, explore_depot_vehicle⟩
  refine ⟨hown ⟨"p.Locatable"⟩ (List.mem_singleton_self _) ⟨4⟩ (by decide),
    hnearest _ hhead ⟨5⟩ (by decide), hcomes, hstop, by decide, fun hmem => ?_⟩
  obtain ⟨-, -, hmembers⟩ := hup _ _ _ hcomes hstop
  rcases hmembers _ hmem with hsubject | ⟨r, n, hr, hn, hfound⟩
  · cases hsubject
  · have hname : n = ⟨"p.Vehicle"⟩ ∨ n = ⟨"p.Locatable"⟩ := by
      rcases hr with hr | hr
      · obtain rfl := List.mem_singleton.1 hr
        exact Or.inr (eq_of_mentions_locatable hn)
      · obtain rfl := List.mem_singleton.1 hr
        exact mem_of_mentions_vehicle hn
    rcases hname with rfl | rfl
    · exact absurd hfound (by decide)
    · exact absurd hfound (by decide)

end Hierarchy

end FactTypes
