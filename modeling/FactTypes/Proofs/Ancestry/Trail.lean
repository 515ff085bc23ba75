import FactTypes.Proofs.Ancestry.Itinerary
import FactTypes.Proofs.Lists

/-!
# Trails into the hierarchy

A trail leads from a type to a name that lies above it: it leaves the type by
one of its own interfaces or by one of its superclasses, and goes on from
interface to interface. A hierarchy in which every name has one trail at most is
a tree, and there the runs of the walk come to every name once.
-/

namespace FactTypes

/-- How a trail leaves the type at its start. -/
inductive Departure where
  /-- By the interface at a place of its list. -/
  | own (place : Nat)
  /-- By the superclass at a place of the chain. -/
  | up (place : Nat)
deriving DecidableEq

namespace ClassPath

/-- The trails from a type to the names above it. Which interface is taken at
    each step is told by its place in the list, the last step first, so that an
    interface that is mentioned twice counts as two ways. -/
inductive Trail (p : ClassPath) (cls : HostType) : Departure → List Nat → TypeName → Prop where
  | own {k : Nat} {n : TypeName} (hn : cls.interfaces[k]? = some n) : Trail p cls (.own k) [] n
  | up {k : Nat} {s : HostType} (hs : (p.superclasses cls)[k]? = some s) :
    Trail p cls (.up k) [] s.name
  | mention {a : Departure} {ks : List Nat} {n m : TypeName} {d : HostType} {k : Nat}
    (ht : Trail p cls a ks n) (hd : p.find? n = some d) (hm : d.interfaces[k]? = some m) :
    Trail p cls a (k :: ks) m

/-- Whether a name lies above a type. -/
def Reached (p : ClassPath) (cls : HostType) (n : TypeName) : Prop :=
  ∃ a ks, p.Trail cls a ks n

/-- Whether no name is reached on two trails. -/
def OnePath (p : ClassPath) (cls : HostType) : Prop :=
  ∀ ⦃a ks b ls n⦄, p.Trail cls a ks n → p.Trail cls b ls n → a = b ∧ ks = ls

variable {p : ClassPath} {cls : HostType} {path : List TypeName} {s n m : TypeName}
  {a : Departure} {ks : List Nat} {run : List Sighting}

-- ═══════════════════════════════════════════════════════════════════════
-- What an itinerary explores
-- ═══════════════════════════════════════════════════════════════════════

/-- What is explored above the end of a trail has a trail that goes on from
    there. -/
theorem Trail.extend (ht : p.Trail cls a ks n) (hm : m ∈ entered (p.itinerary path n)) :
    ∃ ls, p.Trail cls a (ls ++ ks) m := by
  refine itinerary_induction (p := p)
    (motive := fun path n => ∀ ks, p.Trail cls a ks n → m ∈ entered (p.itinerary path n) →
      ∃ ls, p.Trail cls a (ls ++ ks) m) ?_ ?_ ?_ path n ks ht hm
  · intro path n hpath ks _ hm
    rw [itinerary_of_mem_path hpath] at hm
    exact absurd hm List.not_mem_nil
  · intro path n hpath hfound ks ht hm
    rw [itinerary_of_unknown hpath hfound] at hm
    obtain rfl : m = n := List.mem_singleton.1 hm
    exact ⟨[], ht⟩
  · intro path n d hpath hfound ih ks ht hm
    rw [entered_itinerary_of_known hpath hfound, List.mem_cons, List.mem_flatMap] at hm
    rcases hm with rfl | ⟨i, hi, hm⟩
    · exact ⟨[], ht⟩
    · obtain ⟨k, hk⟩ := List.mem_iff_getElem?.1 hi
      obtain ⟨ls, hls⟩ := ih i (k :: ks) (.mention ht hfound hk) hm
      exact ⟨ls ++ [k], by rwa [List.append_assoc]⟩

theorem enter_mem_itinerary_self (hpath : n ∉ path) : .enter n ∈ p.itinerary path n := by
  cases hfound : p.find? n with
  | none => simp [itinerary_of_unknown hpath hfound]
  | some d => simp [itinerary_of_known hpath hfound]

/-- Behind an explored name its interfaces are gathered. -/
theorem gather_mem_itinerary {d : HostType} (hn : .enter n ∈ p.itinerary path s)
    (hfound : p.find? n = some d) (hm : m ∈ d.interfaces) :
    .gather m ∈ p.itinerary path s := by
  refine itinerary_induction (p := p)
    (motive := fun path s => .enter n ∈ p.itinerary path s → .gather m ∈ p.itinerary path s)
    ?_ ?_ ?_ path s hn
  · intro path s hpath hn
    rw [itinerary_of_mem_path hpath] at hn
    exact absurd hn List.not_mem_nil
  · intro path s hpath hunknown hn
    rw [itinerary_of_unknown hpath hunknown, List.mem_singleton] at hn
    obtain rfl : n = s := Sighting.enter.inj hn
    rw [hunknown] at hfound
    cases hfound
  · intro path s e hpath hknown ih hn
    rw [itinerary_of_known hpath hknown] at hn ⊢
    rw [List.mem_cons, List.mem_append, List.mem_flatMap] at hn ⊢
    rcases hn with hn | hn | ⟨i, hi, hn⟩
    · obtain rfl : n = s := Sighting.enter.inj hn
      obtain rfl : d = e := Option.some.inj (hfound.symm.trans hknown)
      exact Or.inr (Or.inl (List.mem_map_of_mem hm))
    · obtain ⟨i, -, hi⟩ := List.mem_map.1 hn
      cases hi
    · exact Or.inr (Or.inr ⟨i, hi, ih i hn⟩)

/-- What is gathered is explored later on, or is being explored already. -/
theorem enter_mem_of_gather_mem (hm : .gather m ∈ p.itinerary path s) :
    m ∈ path ∨ .enter m ∈ p.itinerary path s := by
  refine itinerary_induction (p := p)
    (motive := fun path s => .gather m ∈ p.itinerary path s →
      m ∈ path ∨ .enter m ∈ p.itinerary path s) ?_ ?_ ?_ path s hm
  · intro path s hpath hm
    rw [itinerary_of_mem_path hpath] at hm
    exact absurd hm List.not_mem_nil
  · intro path s hpath hunknown hm
    rw [itinerary_of_unknown hpath hunknown, List.mem_singleton] at hm
    cases hm
  · intro path s d hpath hknown ih hm
    -- a name at hand is `s` itself or stands on the path; any other is explored below `s`
    have hsettle : ∀ i ∈ d.interfaces, m ∈ s :: path ∨ .enter m ∈ p.itinerary (s :: path) i →
        m ∈ path ∨ .enter m ∈ p.itinerary path s := by
      intro i hi h
      rw [itinerary_of_known hpath hknown]
      rcases h with h | h
      · rcases List.mem_cons.1 h with rfl | h
        · exact Or.inr List.mem_cons_self
        · exact Or.inl h
      · refine Or.inr (List.mem_cons_of_mem _ (List.mem_append_right _ ?_))
        exact List.mem_flatMap.2 ⟨i, hi, h⟩
    rw [itinerary_of_known hpath hknown, List.mem_cons, List.mem_append, List.mem_flatMap] at hm
    rcases hm with hm | hm | ⟨i, hi, hm⟩
    · cases hm
    · obtain ⟨i, hi, heq⟩ := List.mem_map.1 hm
      obtain rfl : i = m := Sighting.gather.inj heq
      refine hsettle i hi ?_
      by_cases hi' : i ∈ s :: path
      · exact Or.inl hi'
      · exact Or.inr (enter_mem_itinerary_self hi')
    · exact hsettle i hi (ih i hm)

-- ═══════════════════════════════════════════════════════════════════════
-- What the runs explore
-- ═══════════════════════════════════════════════════════════════════════

/-- Every look-up of a run belongs to an itinerary that lies in the run as a
    whole. -/
theorem exists_itinerary_of_mem_runs {e : Sighting} (hrun : run ∈ p.runs cls) (he : e ∈ run) :
    ∃ s, e ∈ p.itinerary [] s ∧ ∀ e' ∈ p.itinerary [] s, e' ∈ run := by
  rcases List.mem_append.1 hrun with hown | hascent
  · obtain ⟨s, -, rfl⟩ := List.mem_map.1 hown
    exact ⟨s, he, fun _ h => h⟩
  · obtain rfl := List.mem_singleton.1 hascent
    obtain ⟨s, hs, he⟩ := List.mem_flatMap.1 he
    exact ⟨s.name, he, fun e' he' => List.mem_flatMap.2 ⟨s, hs, he'⟩⟩

theorem gather_mem_of_enter_mem {d : HostType} (hrun : run ∈ p.runs cls) (hn : .enter n ∈ run)
    (hfound : p.find? n = some d) (hm : m ∈ d.interfaces) : .gather m ∈ run := by
  obtain ⟨s, hs, hall⟩ := exists_itinerary_of_mem_runs hrun hn
  exact hall _ (gather_mem_itinerary hs hfound hm)

theorem enter_mem_run_of_gather_mem (hrun : run ∈ p.runs cls) (hm : .gather m ∈ run) :
    .enter m ∈ run := by
  obtain ⟨s, hs, hall⟩ := exists_itinerary_of_mem_runs hrun hm
  rcases enter_mem_of_gather_mem hs with h | h
  · exact absurd h List.not_mem_nil
  · exact hall _ h

/-- The names explored by the runs together. -/
theorem entered_flatten_runs (p : ClassPath) (cls : HostType) :
    entered (p.runs cls).flatten =
      (cls.interfaces.flatMap fun i => entered (p.itinerary [] i)) ++
        (p.superclasses cls).flatMap fun s => entered (p.itinerary [] s.name) := by
  rw [runs, List.flatten_append, entered_append, ← List.flatMap_def, entered_flatMap,
    List.flatten_singleton, ascent, entered_flatMap]

/-- The runs explore exactly the names that lie above the type. -/
theorem reached_iff_mem_runs : p.Reached cls n ↔ ∃ run ∈ p.runs cls, .enter n ∈ run := by
  constructor
  · rintro ⟨a, ks, ht⟩
    induction ht with
    | @own k n hn =>
      refine ⟨p.itinerary [] n, ?_, enter_mem_itinerary_self List.not_mem_nil⟩
      exact List.mem_append_left _ (List.mem_map_of_mem (List.mem_of_getElem? hn))
    | @up k s hs =>
      refine ⟨p.ascent cls, List.mem_append_right _ (List.mem_singleton_self _), ?_⟩
      exact List.mem_flatMap.2
        ⟨s, List.mem_of_getElem? hs, enter_mem_itinerary_self List.not_mem_nil⟩
    | mention _ hd hm ih =>
      obtain ⟨run, hrun, hn⟩ := ih
      have hgather := gather_mem_of_enter_mem hrun hn hd (List.mem_of_getElem? hm)
      exact ⟨run, hrun, enter_mem_run_of_gather_mem hrun hgather⟩
  · rintro ⟨run, hrun, hn⟩
    have hflat : n ∈ entered (p.runs cls).flatten :=
      mem_entered.2 (List.mem_flatten.2 ⟨run, hrun, hn⟩)
    rw [entered_flatten_runs, List.mem_append, List.mem_flatMap, List.mem_flatMap] at hflat
    rcases hflat with ⟨i, hi, hn⟩ | ⟨s, hs, hn⟩
    · obtain ⟨k, hk⟩ := List.mem_iff_getElem?.1 hi
      obtain ⟨ls, ht⟩ := (Trail.own hk).extend hn
      exact ⟨_, _, ht⟩
    · obtain ⟨k, hk⟩ := List.mem_iff_getElem?.1 hs
      obtain ⟨ls, ht⟩ := (Trail.up hk).extend hn
      exact ⟨_, _, ht⟩

-- ═══════════════════════════════════════════════════════════════════════
-- Trees
-- ═══════════════════════════════════════════════════════════════════════

theorem nodup_entered_itinerary (hone : p.OnePath cls) (ht : p.Trail cls a ks n) :
    (entered (p.itinerary path n)).Nodup := by
  refine itinerary_induction (p := p)
    (motive := fun path n => ∀ ks, p.Trail cls a ks n → (entered (p.itinerary path n)).Nodup)
    ?_ ?_ ?_ path n ks ht
  · intro path n hpath ks _
    rw [itinerary_of_mem_path hpath]
    exact List.nodup_nil
  · intro path n hpath hfound ks _
    rw [itinerary_of_unknown hpath hfound]
    exact List.nodup_singleton n
  · intro path n d hpath hfound ih ks ht
    rw [entered_itinerary_of_known hpath hfound, List.nodup_cons]
    constructor
    · intro hn
      obtain ⟨i, hi, hn⟩ := List.mem_flatMap.1 hn
      obtain ⟨k, hk⟩ := List.mem_iff_getElem?.1 hi
      obtain ⟨ls, hls⟩ := (Trail.mention ht hfound hk).extend hn
      -- a trail that comes back is longer than the one that set out
      have hlength := congrArg List.length (hone ht hls).2
      simp only [List.length_append, List.length_cons] at hlength
      omega
    · refine nodup_flatMap_of_places ?_ ?_
      · intro i hi
        obtain ⟨k, hk⟩ := List.mem_iff_getElem?.1 hi
        exact ih i (k :: ks) (.mention ht hfound hk)
      · intro k l i j m hk hl hi hj
        obtain ⟨ls, hls⟩ := (Trail.mention ht hfound hk).extend hi
        obtain ⟨ls', hls'⟩ := (Trail.mention ht hfound hl).extend hj
        obtain ⟨-, hsteps⟩ := List.append_inj' (hone hls hls').2 rfl
        exact (List.cons.inj hsteps).1

/-- In a tree the runs come to no name twice. -/
theorem nodup_entered_runs (hone : p.OnePath cls) : (entered (p.runs cls).flatten).Nodup := by
  rw [entered_flatten_runs, List.nodup_append]
  refine ⟨nodup_flatMap_of_places ?_ ?_, nodup_flatMap_of_places ?_ ?_, ?_⟩
  · intro i hi
    obtain ⟨k, hk⟩ := List.mem_iff_getElem?.1 hi
    exact nodup_entered_itinerary hone (.own hk)
  · intro k l i j m hk hl hi hj
    obtain ⟨ls, hls⟩ := (Trail.own hk).extend hi
    obtain ⟨ls', hls'⟩ := (Trail.own hl).extend hj
    exact Departure.own.inj (hone hls hls').1
  · intro s hs
    obtain ⟨k, hk⟩ := List.mem_iff_getElem?.1 hs
    exact nodup_entered_itinerary hone (.up hk)
  · intro k l i j m hk hl hi hj
    obtain ⟨ls, hls⟩ := (Trail.up hk).extend hi
    obtain ⟨ls', hls'⟩ := (Trail.up hl).extend hj
    exact Departure.up.inj (hone hls hls').1
  · intro m hown n hup heq
    subst heq
    obtain ⟨i, hi, hm⟩ := List.mem_flatMap.1 hown
    obtain ⟨s, hs, hm'⟩ := List.mem_flatMap.1 hup
    obtain ⟨k, hk⟩ := List.mem_iff_getElem?.1 hi
    obtain ⟨l, hl⟩ := List.mem_iff_getElem?.1 hs
    obtain ⟨ls, hls⟩ := (Trail.own hk).extend hm
    obtain ⟨ls', hls'⟩ := (Trail.up hl).extend hm'
    exact Departure.noConfusion (hone hls hls').1

end ClassPath

end FactTypes
