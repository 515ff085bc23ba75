import FactTypes.Proofs.Ancestry.Completeness

/-!
# The surroundings of a type

What lies around a type are the names that its superclass chain comes to and those that
are reached from it or from its superclasses along interfaces. Nothing else is looked up
for the type. So two hierarchies that agree around it have the same chain, the same
flattened fields, the same runs of the walk, and the same closure.
-/

namespace FactTypes

namespace ClassPath

/-- The names that the superclass chain of a type comes to: its superclass, and behind
    every known name that is not the type's own the next one. The last of them may be
    unknown, or met for the second time. -/
inductive Met (p : ClassPath) (c : HostType) : TypeName → Prop where
  | first {n : TypeName} (hn : c.effectiveSuperclass = some n) : Met p c n
  | next {m n : TypeName} {d : HostType} (hm : Met p c m) (hne : m ≠ c.name)
    (hd : p.find? m = some d) (hn : d.effectiveSuperclass = some n) : Met p c n

/-- The names around a type: its own, those that its superclass chain comes to, and those
    that are reached from it or from its superclasses along interfaces of known types. -/
def Relevant (p : ClassPath) (c : HostType) (n : TypeName) : Prop :=
  n = c.name ∨ p.Met c n ∨ p.Reached c n

variable {p q : ClassPath} {c : HostType} {met path : List TypeName} {next : Option TypeName}
  {n : TypeName}

/-- A chain that does not go through the type again looks up names that it meets. -/
theorem chainFrom_congr (hself : c.name ∈ met) (hnext : ∀ n, next = some n → p.Met c n)
    (hsame : ∀ n, p.Met c n → q.find? n = p.find? n) :
    q.chainFrom met next = p.chainFrom met next := by
  fun_induction p.chainFrom met next with
  | case1 => exact q.chainFrom_none _
  | case2 met n hmet => rw [chainFrom_some, if_pos hmet]
  | case3 met n hmet hfound =>
    have hunknown : q.find? n = none := (hsame n (hnext n rfl)).trans hfound
    rw [chainFrom_some, if_neg hmet, hunknown]
  | case4 met n hmet d hfound ih =>
    have hknown : q.find? n = some d := (hsame n (hnext n rfl)).trans hfound
    have hne : n ≠ c.name := fun h => hmet (h ▸ hself)
    rw [chainFrom_of_known hmet hknown]
    refine congrArg (List.cons d) (ih (List.mem_cons_of_mem n hself) ?_)
    intro m hm
    exact .next (hnext n rfl) hne hfound hm

theorem superclasses_congr (hsame : ∀ n, p.Met c n → q.find? n = p.find? n) :
    q.superclasses c = p.superclasses c :=
  chainFrom_congr (List.mem_singleton_self _) (fun _ hn => .first hn) hsame

/-- The fields of a type are those along its chain. -/
theorem flattenFields_congr (hsame : ∀ n, p.Relevant c n → q.find? n = p.find? n) :
    q.flattenFields c = p.flattenFields c := by
  rw [flattenFields, flattenFields,
    superclasses_congr fun n hn => hsame n (Or.inr (Or.inl hn))]

/-- An itinerary depends on the names that it explores. -/
theorem itinerary_congr (hsame : ∀ m, .enter m ∈ p.itinerary path n → q.find? m = p.find? m) :
    q.itinerary path n = p.itinerary path n := by
  refine itinerary_induction (p := p)
    (motive := fun path n => (∀ m, .enter m ∈ p.itinerary path n → q.find? m = p.find? m) →
      q.itinerary path n = p.itinerary path n) ?_ ?_ ?_ path n hsame
  · intro path n hpath _
    rw [itinerary_of_mem_path hpath, itinerary_of_mem_path hpath]
  · intro path n hpath hfound hsame
    have hunknown : q.find? n = none :=
      (hsame n (enter_mem_itinerary_self hpath)).trans hfound
    rw [itinerary_of_unknown hpath hfound, itinerary_of_unknown hpath hunknown]
  · intro path n d hpath hfound ih hsame
    have hknown : q.find? n = some d :=
      (hsame n (enter_mem_itinerary_self hpath)).trans hfound
    have hbelow : ∀ i ∈ d.interfaces, q.itinerary (n :: path) i = p.itinerary (n :: path) i := by
      intro i hi
      refine ih i fun m hm => hsame m ?_
      rw [itinerary_of_known hpath hfound]
      exact List.mem_cons_of_mem _ (List.mem_append_right _ (List.mem_flatMap.2 ⟨i, hi, hm⟩))
    rw [itinerary_of_known hpath hfound, itinerary_of_known hpath hknown,
      List.flatMap_congr hbelow]

/-- The runs depend on the names around the type. -/
theorem runs_congr (hsame : ∀ n, p.Relevant c n → q.find? n = p.find? n) :
    q.runs c = p.runs c := by
  have hentered : ∀ run ∈ p.runs c, ∀ m, .enter m ∈ run → q.find? m = p.find? m := by
    intro run hrun m hm
    exact hsame m (Or.inr (Or.inr (reached_iff_mem_runs.2 ⟨run, hrun, hm⟩)))
  have hown : c.interfaces.map (q.itinerary []) = c.interfaces.map (p.itinerary []) := by
    apply List.map_congr_left
    intro i hi
    exact itinerary_congr (hentered _ (List.mem_append_left _ (List.mem_map_of_mem hi)))
  have hascent : q.ascent c = p.ascent c := by
    rw [ascent, ascent, superclasses_congr fun n hn => hsame n (Or.inr (Or.inl hn))]
    refine List.flatMap_congr fun s hs => itinerary_congr fun m hm => ?_
    refine hentered (p.ascent c) (List.mem_append_right _ (List.mem_singleton_self _)) m ?_
    exact List.mem_flatMap.2 ⟨s, hs, hm⟩
  rw [runs, runs, hown, hascent]

/-- Class paths that agree around a type agree on what lies around it. -/
theorem relevant_congr (hsame : ∀ n, p.Relevant c n → q.find? n = p.find? n) :
    q.Relevant c n ↔ p.Relevant c n := by
  have hmet : q.Met c n ↔ p.Met c n := by
    constructor
    · intro hn
      induction hn with
      | first hn => exact .first hn
      | next _ hne hd hn ih => exact .next ih hne ((hsame _ (Or.inr (Or.inl ih))) ▸ hd) hn
    · intro hn
      induction hn with
      | first hn => exact .first hn
      | next hm hne hd hn ih =>
        exact .next ih hne ((hsame _ (Or.inr (Or.inl hm))).trans hd) hn
  rw [Relevant, Relevant, hmet, reached_iff_mem_runs, reached_iff_mem_runs, runs_congr hsame]

end ClassPath

namespace Hierarchy

/-- Whether two hierarchies agree around a type: on the known types, and on what is filed
    under their names. They have the same table of the engine. -/
structure SameAround (v w : Hierarchy) (c : HostType) : Prop where
  classes : ∀ n, v.classes.Relevant c n → w.classes.find? n = v.classes.find? n
  packages : ∀ n, v.classes.Relevant c n → w.packages.lookup n = v.packages.lookup n
  builtins : w.builtins = v.builtins

variable {v w : Hierarchy} {c : HostType} {run : List Sighting} {e : Sighting}

theorem SameAround.lookup_eq {n : TypeName} (hvw : v.SameAround w c)
    (hn : v.classes.Relevant c n) : w.lookup n = v.lookup n := by
  rw [lookup, lookup, hvw.builtins, hvw.packages n hn]

/-- A look-up around the type is made alike. -/
theorem SameAround.sight_eq (hvw : v.SameAround w c) (he : v.classes.Relevant c e.name)
    (d : Closure) : w.sight d e = v.sight d e := by
  cases e with
  | enter n =>
    have hlookup : w.lookup n = v.lookup n := hvw.lookup_eq he
    simp only [sight, enter, hlookup]
  | gather n =>
    have hfiled : w.packages.lookup n = v.packages.lookup n := hvw.packages n he
    simp only [sight, gather, hfiled]

theorem follow_congr (hsight : ∀ e ∈ run, ∀ d, w.sight d e = v.sight d e) (d : Closure) :
    w.follow d run = v.follow d run := by
  have hfold : run.foldlM w.sight d = run.foldlM v.sight d := by
    induction run generalizing d with
    | nil => rfl
    | cons e rest ih =>
      obtain ⟨hfirst, hrest⟩ := List.forall_mem_cons.1 hsight
      rw [List.foldlM_cons, List.foldlM_cons, hfirst]
      exact bind_congr fun d => ih hrest d
  rw [follow, follow, hfold]

/-- Hierarchies that agree around a type give it the same closure, for every subject. -/
theorem closure_congr (hvw : v.SameAround w c) (subject : Handle) :
    w.closure c subject = v.closure c subject := by
  rw [closure_eq_foldl, closure_eq_foldl, ClassPath.runs_congr hvw.classes]
  apply List.foldl_ext
  intro d run hrun
  refine follow_congr (fun e he => hvw.sight_eq ?_) d
  exact Or.inr (Or.inr (reached_of_mem_run hrun he))

end Hierarchy

end FactTypes
