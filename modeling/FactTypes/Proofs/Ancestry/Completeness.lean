import FactTypes.Proofs.Ancestry.Trail

/-!
# What the closure misses

A stop is meant for a declaration that is met again. The walk, however, adds
the declarations filed for the interfaces of a type ahead of exploring them, so
a name below the first level is met again even when nothing leads to it twice.
In a hierarchy that shares nothing this is the only cause of a stop, and it is
settled by the itineraries alone which declarations are lost behind one.
-/

namespace FactTypes

namespace Hierarchy

/-- Whether the hierarchy above a type shares nothing: every name has one trail,
    what one name looks up no other name finds, neither by its own look-up nor
    among the filed declarations, and no name looks up the subject. -/
structure Unshared (w : Hierarchy) (cls : HostType) (subject : Handle) : Prop where
  onePath : w.classes.OnePath cls
  apart : ∀ {n m : TypeName} {h : Handle}, w.classes.Reached cls n → w.classes.Reached cls m →
    w.lookup n = some h → w.lookup m = some h ∨ w.packages.lookup m = some h → n = m
  notSubject : ∀ {n : TypeName}, w.classes.Reached cls n → w.lookup n ≠ some subject

/-- Whether the look-ups so far have added the declaration of a name ahead of its
    exploration: the name was gathered, and the packages alone find the same
    declaration as the look-up. -/
def Gathered (w : Hierarchy) (before : List Sighting) (n : TypeName) : Prop :=
  .gather n ∈ before ∧ w.packages.lookup n = w.lookup n

/-- Whether a name stands behind a stop of a run: the run comes to a declared
    name that was gathered, while the given one is still ahead and was not. -/
def Screened (w : Hierarchy) (run : List Sighting) (m : TypeName) : Prop :=
  ∃ before n after, run = before ++ .enter n :: after ∧ (w.lookup n).isSome ∧
    w.Gathered before n ∧ .enter m ∈ after ∧ ¬w.Gathered before m

/-- Whether no name that the look-ups come to was gathered among them before. -/
def Open (w : Hierarchy) (before : List Sighting) : Prop :=
  ∀ front n back, before = front ++ .enter n :: back → (w.lookup n).isSome →
    ¬w.Gathered front n

/-- Whether a look-up, once made, adds the declaration of a name. -/
def Supplies (w : Hierarchy) (e : Sighting) (m : TypeName) : Prop :=
  e = .enter m ∨ e = .gather m ∧ w.packages.lookup m = w.lookup m

variable {w : Hierarchy} {cls : HostType} {subject h : Handle} {n m : TypeName}
  {run front back before after : List Sighting} {earlier later : List (List Sighting)}

-- ═══════════════════════════════════════════════════════════════════════
-- Stretches without a stop
-- ═══════════════════════════════════════════════════════════════════════

theorem Open.of_append (hopen : w.Open (before ++ after)) : w.Open before := by
  intro front n back hsplit
  exact hopen front n (back ++ after) (by rw [hsplit, List.append_assoc, List.cons_append])

/-- A list of look-ups is open, or it is so up to a gathered name. -/
theorem open_or_exists_first (w : Hierarchy) (before : List Sighting) :
    w.Open before ∨ ∃ front n back, before = front ++ .enter n :: back ∧
      (w.lookup n).isSome ∧ w.Gathered front n ∧ w.Open front := by
  induction hk : before.length using Nat.strongRecOn generalizing before with
  | ind k ih =>
    by_cases hopen : w.Open before
    · exact Or.inl hopen
    · simp only [Open, not_forall, not_not] at hopen
      obtain ⟨front, n, back, rfl, hsome, hgathered⟩ := hopen
      have hshorter : front.length < k := by
        rw [← hk, List.length_append, List.length_cons]
        omega
      rcases ih _ hshorter front rfl with hfront | ⟨front', n', back', rfl, hsome', h', hopen'⟩
      · exact Or.inr ⟨front, n, back, rfl, hsome, hgathered, hfront⟩
      · refine Or.inr ⟨front', n', back' ++ .enter n :: back, ?_, hsome', h', hopen'⟩
        rw [List.append_assoc, List.cons_append]

/-- A name that is not screened is supplied at the end of some open stretch. -/
theorem exists_open_of_not_screened (hm : .enter m ∈ run) (hclear : ¬w.Screened run m) :
    ∃ before e after, run = before ++ e :: after ∧ w.Supplies e m ∧ w.Open before := by
  obtain ⟨front, back, hsplit⟩ := List.append_of_mem hm
  rcases open_or_exists_first w front with hopen |
    ⟨front', n, back', rfl, hsome, hgathered, hopen⟩
  · exact ⟨front, .enter m, back, hsplit, Or.inl rfl, hopen⟩
  · have hahead : w.Gathered front' m := by
      by_contra hnot
      refine hclear ⟨front', n, back' ++ .enter m :: back, ?_, hsome, hgathered, by simp, hnot⟩
      rw [hsplit, List.append_assoc, List.cons_append]
    obtain ⟨hgather, hsame⟩ := hahead
    obtain ⟨first, second, rfl⟩ := List.append_of_mem hgather
    refine ⟨first, .gather m, second ++ .enter n :: back' ++ .enter m :: back, ?_,
      Or.inr ⟨rfl, hsame⟩, hopen.of_append⟩
    rw [hsplit]
    simp

-- ═══════════════════════════════════════════════════════════════════════
-- Hierarchies that share nothing
-- ═══════════════════════════════════════════════════════════════════════

theorem lookup_name_of_found {e : Sighting} (hfound : w.found e = some h) :
    w.lookup e.name = some h ∨ w.packages.lookup e.name = some h := by
  cases e with
  | enter n => exact Or.inl hfound
  | gather n => exact Or.inr hfound

theorem enter_name_mem_run {e : Sighting} (hrun : run ∈ w.classes.runs cls) (he : e ∈ run) :
    .enter e.name ∈ run := by
  cases e with
  | enter n => exact he
  | gather n => exact ClassPath.enter_mem_run_of_gather_mem hrun he

theorem reached_of_mem_run {e : Sighting} (hrun : run ∈ w.classes.runs cls) (he : e ∈ run) :
    w.classes.Reached cls e.name :=
  ClassPath.reached_iff_mem_runs.2 ⟨run, hrun, enter_name_mem_run hrun he⟩

namespace Unshared

variable (hU : w.Unshared cls subject)
include hU

/-- A name is explored in one run, and there at one place. -/
theorem enter_once (hruns : w.classes.runs cls = earlier ++ run :: later)
    (hrun : run = front ++ .enter n :: back) :
    (∀ run' ∈ earlier, .enter n ∉ run') ∧ .enter n ∉ front ∧ .enter n ∉ back := by
  have hnodup := ClassPath.nodup_entered_runs hU.onePath
  have hflat : (w.classes.runs cls).flatten =
      (earlier.flatten ++ front) ++ .enter n :: (back ++ later.flatten) := by
    rw [hruns, hrun]
    simp
  rw [hflat, ClassPath.entered_append] at hnodup
  have hnot := (List.nodup_middle.1 hnodup).notMem
  rw [List.mem_append, not_or, ClassPath.mem_entered, List.mem_append, not_or] at hnot
  obtain ⟨⟨hearlier, hfront⟩, hrest⟩ := hnot
  have hback : .enter n ∉ back := fun hb =>
    hrest (ClassPath.mem_entered.2 (List.mem_append_left _ hb))
  exact ⟨fun run' hrun' hn => hearlier (List.mem_flatten.2 ⟨run', hrun', hn⟩), hfront, hback⟩

/-- Whatever finds the declaration of an explored name looks up that name. -/
theorem name_eq_of_found {e : Sighting} {run' : List Sighting} (hrun : run ∈ w.classes.runs cls)
    (hn : .enter n ∈ run) (hlookup : w.lookup n = some h) (hrun' : run' ∈ w.classes.runs cls)
    (he : e ∈ run') (hfound : w.found e = some h) : e.name = n :=
  (hU.apart (reached_of_mem_run hrun hn) (reached_of_mem_run hrun' he) hlookup
    (lookup_name_of_found hfound)).symm

/-- The earlier runs do not find what a later one explores. -/
theorem not_mem_earlier (hruns : w.classes.runs cls = earlier ++ run :: later)
    (hrun : run = front ++ .enter n :: back) (hlookup : w.lookup n = some h) :
    h ∉ (earlier.foldl w.follow (.new subject)).members := by
  have hmem : run ∈ w.classes.runs cls := by simp [hruns]
  have hn : .enter n ∈ run := by simp [hrun]
  intro hfound
  rcases mem_foldl_follow_iff.1 hfound with hsubject |
    ⟨earlier', run', later', before, e, after, rfl, hsplit, hfound, -⟩
  · obtain rfl : h = subject := List.mem_singleton.1 hsubject
    exact hU.notSubject (reached_of_mem_run hmem hn) hlookup
  · have hmem' : run' ∈ w.classes.runs cls := by simp [hruns]
    have he : e ∈ run' := by simp [hsplit]
    have hname := hU.name_eq_of_found hmem hn hlookup hmem' he hfound
    have hagain := enter_name_mem_run hmem' he
    rw [hname] at hagain
    exact (hU.enter_once hruns hrun).1 run' (by simp) hagain

/-- A stretch of a run goes through exactly when it is open. -/
theorem passes_iff_open (hruns : w.classes.runs cls = earlier ++ run :: later)
    (hrun : run = before ++ after) :
    w.Passes (earlier.foldl w.follow (.new subject)) before ↔ w.Open before := by
  rw [passes_iff]
  constructor
  · intro hall front n back hsplit hsome hgathered
    obtain ⟨h, hlookup⟩ := Option.isSome_iff_exists.1 hsome
    exact (hall front n back h hsplit hlookup).2 _ hgathered.1 (hgathered.2.trans hlookup)
  · intro hopen front n back h hsplit hlookup
    have hrun' : run = front ++ .enter n :: (back ++ after) := by
      rw [hrun, hsplit, List.append_assoc, List.cons_append]
    have hmem : run ∈ w.classes.runs cls := by simp [hruns]
    refine ⟨hU.not_mem_earlier hruns hrun' hlookup, fun e he hfound => ?_⟩
    have hname := hU.name_eq_of_found hmem (by simp [hrun']) hlookup hmem
      (by simp [hrun', he]) hfound
    cases e with
    | enter m =>
      obtain rfl : m = n := hname
      exact (hU.enter_once hruns hrun').2.1 he
    | gather m =>
      obtain rfl : m = n := hname
      have hsome : (w.lookup m).isSome := by simp [hlookup]
      exact hopen front m back hsplit hsome ⟨he, hfound.trans hlookup.symm⟩

/-- A name is explored in one run only. -/
theorem run_eq {run' : List Sighting} (hrun : run ∈ w.classes.runs cls)
    (hrun' : run' ∈ w.classes.runs cls) (hm : .enter m ∈ run) (hm' : .enter m ∈ run') :
    run' = run := by
  by_contra hne
  obtain ⟨earlier, later, hruns⟩ := List.append_of_mem hrun'
  obtain ⟨front, back, hsplit⟩ := List.append_of_mem hm
  obtain ⟨front', back', hsplit'⟩ := List.append_of_mem hm'
  rw [hruns, List.mem_append, List.mem_cons] at hrun
  rcases hrun with hearlier | rfl | hlater
  · exact (hU.enter_once hruns hsplit').1 run hearlier hm
  · exact hne rfl
  · obtain ⟨middle, rest, rfl⟩ := List.append_of_mem hlater
    have hruns' : w.classes.runs cls = (earlier ++ run' :: middle) ++ run :: rest := by
      rw [hruns, List.append_assoc, List.cons_append]
    exact (hU.enter_once hruns' hsplit).1 run' (by simp) hm'

/-- The declaration of an explored name is found by the exploration of that name
    or by gathering it, whichever the run comes to. -/
theorem mem_closure_iff_exists_open (hrun : run ∈ w.classes.runs cls) (hm : .enter m ∈ run)
    (hlookup : w.lookup m = some h) :
    h ∈ (w.closure cls subject).members ↔ ∃ before e after, run = before ++ e :: after ∧
      w.Supplies e m ∧ w.Open before := by
  rw [closure_eq_foldl, mem_foldl_follow_iff]
  constructor
  · rintro (hsubject | ⟨earlier, run', later, before, e, after, hruns, hsplit, hfound, hpass⟩)
    · obtain rfl : h = subject := List.mem_singleton.1 hsubject
      exact absurd hlookup (hU.notSubject (reached_of_mem_run hrun hm))
    · have hmem' : run' ∈ w.classes.runs cls := by simp [hruns]
      have he : e ∈ run' := by simp [hsplit]
      have hname := hU.name_eq_of_found hrun hm hlookup hmem' he hfound
      -- the run that finds the declaration is the one that explores the name
      have hm' : .enter m ∈ run' := hname ▸ enter_name_mem_run hmem' he
      obtain rfl : run' = run := hU.run_eq hrun hmem' hm hm'
      refine ⟨before, e, after, hsplit, ?_, (hU.passes_iff_open hruns hsplit).1 hpass⟩
      cases e with
      | enter n =>
        obtain rfl : n = m := hname
        exact Or.inl rfl
      | gather n =>
        obtain rfl : n = m := hname
        exact Or.inr ⟨rfl, hfound.trans hlookup.symm⟩
  · rintro ⟨before, e, after, hsplit, hsupplies, hopen⟩
    obtain ⟨earlier, later, hruns⟩ := List.append_of_mem hrun
    refine Or.inr ⟨earlier, run, later, before, e, after, hruns, hsplit, ?_,
      (hU.passes_iff_open hruns hsplit).2 hopen⟩
    rcases hsupplies with rfl | ⟨rfl, hsame⟩
    · exact hlookup
    · exact hsame.trans hlookup

/-- A name is not screened when an open stretch leads to a look-up that supplies
    it: the look-up lies before every stop, or the name was gathered at the stop. -/
theorem not_screened_of_open {e : Sighting} (hrun : run ∈ w.classes.runs cls)
    (hsplit : run = before ++ e :: after) (hsupplies : w.Supplies e m) (hopen : w.Open before) :
    ¬w.Screened run m := by
  rintro ⟨before', n, after', hsplit', hsome, hgathered, hahead, hnot⟩
  obtain ⟨earlier, later, hruns⟩ := List.append_of_mem hrun
  obtain ⟨middle, rest, hafter⟩ := List.append_of_mem hahead
  have hsplit'' : run = (before' ++ .enter n :: middle) ++ .enter m :: rest := by
    rw [hsplit', hafter, List.append_assoc, List.cons_append]
  have honce := (hU.enter_once hruns hsplit'').2.1
  rcases List.append_eq_append_iff.1 (hsplit.symm.trans hsplit') with
    ⟨between, hbefore, htail⟩ | ⟨between, hbefore, htail⟩
  · have he : e ∈ before' ++ [.enter n] := by
      cases between with
      | nil => simp [(List.cons.inj htail).1]
      | cons e' between =>
        obtain ⟨rfl, -⟩ := List.cons.inj htail
        simp [hbefore]
    rcases hsupplies with rfl | ⟨rfl, hsame⟩
    · refine honce ?_
      rw [List.append_cons]
      exact List.mem_append_left _ he
    · have hgather : .gather m ∈ before' := by simpa using he
      exact hnot ⟨hgather, hsame⟩
  · cases between with
    | nil =>
      obtain ⟨heq, -⟩ := List.cons.inj htail
      rcases hsupplies with rfl | ⟨rfl, -⟩
      · obtain rfl : n = m := Sighting.enter.inj heq
        exact honce (by simp)
      · cases heq
    | cons e' between =>
      obtain ⟨rfl, -⟩ := List.cons.inj htail
      exact hopen before' n between hbefore hsome hgathered

/-- The declaration of an explored name is in the closure unless the name is
    screened in its run. -/
theorem mem_closure_iff (hrun : run ∈ w.classes.runs cls) (hm : .enter m ∈ run)
    (hlookup : w.lookup m = some h) :
    h ∈ (w.closure cls subject).members ↔ ¬w.Screened run m := by
  rw [hU.mem_closure_iff_exists_open hrun hm hlookup]
  constructor
  · rintro ⟨before, e, after, hsplit, hsupplies, hopen⟩
    exact hU.not_screened_of_open hrun hsplit hsupplies hopen
  · exact exists_open_of_not_screened hm

end Unshared

/-- In a hierarchy that shares nothing, the closure has the declarations of all
    the names above the type exactly when none of the declared ones is
    screened. -/
theorem complete_iff_not_screened (hU : w.Unshared cls subject) :
    (∀ n h, w.classes.Reached cls n → w.lookup n = some h →
      h ∈ (w.closure cls subject).members) ↔
    ∀ run ∈ w.classes.runs cls, ∀ n, .enter n ∈ run → (w.lookup n).isSome →
      ¬w.Screened run n := by
  constructor
  · intro hcomplete run hrun n hn hsome
    obtain ⟨h, hlookup⟩ := Option.isSome_iff_exists.1 hsome
    have hreached := ClassPath.reached_iff_mem_runs.2 ⟨run, hrun, hn⟩
    exact (hU.mem_closure_iff hrun hn hlookup).1 (hcomplete n h hreached hlookup)
  · intro hclear n h hreached hlookup
    obtain ⟨run, hrun, hn⟩ := ClassPath.reached_iff_mem_runs.1 hreached
    have hsome : (w.lookup n).isSome := by simp [hlookup]
    exact (hU.mem_closure_iff hrun hn hlookup).2 (hclear run hrun n hn hsome)

-- ═══════════════════════════════════════════════════════════════════════
-- A ladder of interfaces
-- ═══════════════════════════════════════════════════════════════════════

/-- Three interfaces, each extending the next, every one with a filed
    declaration, and a type that implements the first. -/
def ladder : Hierarchy :=
  let (store, builtins) := Builtins.seed .empty
  let (a, store) := store.alloc (.declared ⟨"p.A"⟩)
  let (b, store) := store.alloc (.declared ⟨"p.B"⟩)
  let (c, store) := store.alloc (.declared ⟨"p.C"⟩)
  { classes := .ofList
      [{ name := ⟨"p.A"⟩, shape := .interface, interfaces := [⟨"p.B"⟩] },
        { name := ⟨"p.B"⟩, shape := .interface, interfaces := [⟨"p.C"⟩] },
        { name := ⟨"p.C"⟩, shape := .interface },
        { name := ⟨"p.Leaf"⟩, interfaces := [⟨"p.A"⟩] }]
    builtins
    packages := ((Packages.empty.declare store a).declare store b).declare store c }

/-- A type that implements one interface of the ladder. -/
def climber (rung : TypeName) : HostType :=
  { name := ⟨"p.Leaf"⟩, interfaces := [rung] }

private theorem ladder_find_a :
    ladder.classes.find? ⟨"p.A"⟩ =
      some { name := ⟨"p.A"⟩, shape := .interface, interfaces := [⟨"p.B"⟩] } := by
  decide

private theorem ladder_find_b :
    ladder.classes.find? ⟨"p.B"⟩ =
      some { name := ⟨"p.B"⟩, shape := .interface, interfaces := [⟨"p.C"⟩] } := by
  decide

private theorem ladder_find_c :
    ladder.classes.find? ⟨"p.C"⟩ = some { name := ⟨"p.C"⟩, shape := .interface } := by
  decide

/-- From each interface of the ladder one step leads on, to the next. -/
private theorem ladder_step {n m : TypeName} {d : HostType} {k : Nat}
    (hn : n ∈ [⟨"p.A"⟩, ⟨"p.B"⟩, ⟨"p.C"⟩]) (hd : ladder.classes.find? n = some d)
    (hm : d.interfaces[k]? = some m) :
    k = 0 ∧ (n = ⟨"p.A"⟩ ∧ m = ⟨"p.B"⟩ ∨ n = ⟨"p.B"⟩ ∧ m = ⟨"p.C"⟩) := by
  simp only [List.mem_cons, List.not_mem_nil, or_false] at hn
  rcases hn with rfl | rfl | rfl
  · obtain rfl := Option.some.inj (ladder_find_a.symm.trans hd)
    obtain ⟨rfl, rfl⟩ : k = 0 ∧ ⟨"p.B"⟩ = m := by cases k <;> simp_all
    exact ⟨rfl, Or.inl ⟨rfl, rfl⟩⟩
  · obtain rfl := Option.some.inj (ladder_find_b.symm.trans hd)
    obtain ⟨rfl, rfl⟩ : k = 0 ∧ ⟨"p.C"⟩ = m := by cases k <;> simp_all
    exact ⟨rfl, Or.inr ⟨rfl, rfl⟩⟩
  · obtain rfl := Option.some.inj (ladder_find_c.symm.trans hd)
    cases hm

/-- How many steps lead from one interface of the ladder to another. -/
private def ladderSteps : List (TypeName × TypeName × List Nat) :=
  [(⟨"p.A"⟩, ⟨"p.A"⟩, []), (⟨"p.A"⟩, ⟨"p.B"⟩, [0]), (⟨"p.A"⟩, ⟨"p.C"⟩, [0, 0]),
    (⟨"p.B"⟩, ⟨"p.B"⟩, []), (⟨"p.B"⟩, ⟨"p.C"⟩, [0])]

private theorem mem_ladder_of_steps {r n : TypeName} {ks : List Nat}
    (h : (r, n, ks) ∈ ladderSteps) : n ∈ [⟨"p.A"⟩, ⟨"p.B"⟩, ⟨"p.C"⟩] := by
  have hall : ∀ x ∈ ladderSteps, x.2.1 ∈ [⟨"p.A"⟩, ⟨"p.B"⟩, ⟨"p.C"⟩] := by decide
  exact hall _ h

private theorem ladder_trail {r n : TypeName} {a : Departure} {ks : List Nat}
    (hr : r ∈ [⟨"p.A"⟩, ⟨"p.B"⟩]) (ht : ladder.classes.Trail (climber r) a ks n) :
    a = .own 0 ∧ (r, n, ks) ∈ ladderSteps := by
  induction ht with
  | @own k n hn =>
    obtain ⟨rfl, rfl⟩ : k = 0 ∧ r = n := by cases k <;> simp_all [climber]
    refine ⟨rfl, ?_⟩
    simp only [List.mem_cons, List.not_mem_nil, or_false] at hr
    rcases hr with rfl | rfl <;> decide
  | @up k s hs =>
    have hnone : ladder.classes.superclasses (climber r) = [] :=
      ClassPath.chainFrom_none ladder.classes _
    simp [hnone] at hs
  | @mention a ks n m d k _ hd hm ih =>
    obtain ⟨rfl, hsteps⟩ := ih
    refine ⟨rfl, ?_⟩
    have hn : n ∈ [⟨"p.A"⟩, ⟨"p.B"⟩, ⟨"p.C"⟩] := mem_ladder_of_steps hsteps
    obtain ⟨rfl, hstep⟩ := ladder_step hn hd hm
    rcases hstep with ⟨rfl, rfl⟩ | ⟨rfl, rfl⟩
    · simpa [ladderSteps] using hsteps
    · simpa [ladderSteps] using hsteps

private theorem ladder_reached {r n : TypeName} (hr : r ∈ [⟨"p.A"⟩, ⟨"p.B"⟩])
    (hn : ladder.classes.Reached (climber r) n) : n ∈ [⟨"p.A"⟩, ⟨"p.B"⟩, ⟨"p.C"⟩] := by
  obtain ⟨a, ks, ht⟩ := hn
  exact mem_ladder_of_steps (ladder_trail hr ht).2

private theorem ladder_unshared {r : TypeName} (hr : r ∈ [⟨"p.A"⟩, ⟨"p.B"⟩]) :
    ladder.Unshared (climber r) ⟨7⟩ := by
  refine ⟨?_, ?_, ?_⟩
  · intro a ks b ls n ht ht'
    obtain ⟨rfl, hks⟩ := ladder_trail hr ht
    obtain ⟨rfl, hls⟩ := ladder_trail hr ht'
    have hsame : ∀ x ∈ ladderSteps, ∀ y ∈ ladderSteps, x.1 = y.1 → x.2.1 = y.2.1 →
        x.2.2 = y.2.2 := by decide
    exact ⟨rfl, hsame _ hks _ hls rfl rfl⟩
  · intro n m h hn hm hlookup hfinds
    have hnames : ∀ n ∈ [⟨"p.A"⟩, ⟨"p.B"⟩, ⟨"p.C"⟩], ∀ m ∈ [⟨"p.A"⟩, ⟨"p.B"⟩, ⟨"p.C"⟩],
        ladder.lookup m = ladder.lookup n ∨ ladder.packages.lookup m = ladder.lookup n →
        n = m := by decide
    rw [← hlookup] at hfinds
    exact hnames n (ladder_reached hr hn) m (ladder_reached hr hm) hfinds
  · intro n hn
    have hother : ∀ n ∈ [⟨"p.A"⟩, ⟨"p.B"⟩, ⟨"p.C"⟩], ladder.lookup n ≠ some ⟨7⟩ := by decide
    exact hother n (ladder_reached hr hn)

private theorem ladder_itinerary_b (path : List TypeName)
    (hpath : path = [] ∨ path = [⟨"p.A"⟩]) :
    ladder.classes.itinerary path ⟨"p.B"⟩ =
      [.enter ⟨"p.B"⟩, .gather ⟨"p.C"⟩, .enter ⟨"p.C"⟩] := by
  have hb : (⟨"p.B"⟩ : TypeName) ∉ path := by rcases hpath with rfl | rfl <;> decide
  have hc : (⟨"p.C"⟩ : TypeName) ∉ ⟨"p.B"⟩ :: path := by rcases hpath with rfl | rfl <;> decide
  rw [ClassPath.itinerary_of_known hb ladder_find_b]
  simp [ClassPath.itinerary_of_known hc ladder_find_c]

private theorem ladder_itinerary_a :
    ladder.classes.itinerary [] ⟨"p.A"⟩ =
      [.enter ⟨"p.A"⟩, .gather ⟨"p.B"⟩, .enter ⟨"p.B"⟩, .gather ⟨"p.C"⟩, .enter ⟨"p.C"⟩] := by
  rw [ClassPath.itinerary_of_known List.not_mem_nil ladder_find_a]
  simp [ladder_itinerary_b]

private theorem ladder_runs {r : TypeName} :
    ladder.classes.runs (climber r) = [ladder.classes.itinerary [] r, []] := by
  have hnone : ladder.classes.superclasses (climber r) = [] :=
    ClassPath.chainFrom_none ladder.classes _
  rw [ClassPath.runs, ClassPath.ascent, hnone]
  rfl

/-- From the second interface on nothing is lost: the walk stops at the third,
    but no name is ahead of it then. -/
theorem ladder_complete_from_second :
    ladder.Unshared (climber ⟨"p.B"⟩) ⟨7⟩ ∧
      ∀ n h, ladder.classes.Reached (climber ⟨"p.B"⟩) n → ladder.lookup n = some h →
        h ∈ (ladder.closure (climber ⟨"p.B"⟩) ⟨7⟩).members := by
  have hunshared := ladder_unshared (r := ⟨"p.B"⟩) (by simp)
  refine ⟨hunshared, (complete_iff_not_screened hunshared).2 ?_⟩
  intro run hrun m _ _
  rintro ⟨before, n, after, hsplit, -, ⟨hgather, -⟩, hahead, -⟩
  rw [ladder_runs, ladder_itinerary_b [] (Or.inl rfl)] at hrun
  rcases List.mem_pair.1 hrun with rfl | rfl
  · -- what is gathered stands in front, and only the last look-up is behind it
    match before, hsplit with
    | [], hsplit => exact absurd hgather List.not_mem_nil
    | [_], hsplit => cases hsplit
    | [_, _], hsplit =>
      obtain rfl := (List.cons.inj (List.cons.inj (List.cons.inj hsplit).2).2).2
      exact absurd hahead List.not_mem_nil
    | _ :: _ :: _ :: rest, hsplit => simp at hsplit
  · simp at hsplit

/-- The third interface of the ladder is declared, nothing leads to it twice, and
    the closure misses it all the same. -/
theorem ladder_closure_misses_third :
    ladder.classes.find? (climber ⟨"p.A"⟩).name = some (climber ⟨"p.A"⟩) ∧
      ¬ladder.classes.Reached (climber ⟨"p.A"⟩) (climber ⟨"p.A"⟩).name ∧
      ladder.Unshared (climber ⟨"p.A"⟩) ⟨7⟩ ∧
      ladder.classes.Reached (climber ⟨"p.A"⟩) ⟨"p.C"⟩ ∧
      ladder.lookup ⟨"p.C"⟩ = some ⟨6⟩ ∧
      ⟨6⟩ ∉ (ladder.closure (climber ⟨"p.A"⟩) ⟨7⟩).members := by
  have ha : (⟨"p.A"⟩ : TypeName) ∈ [⟨"p.A"⟩, ⟨"p.B"⟩] := by simp
  have hunshared := ladder_unshared ha
  have hlookup : ladder.lookup ⟨"p.C"⟩ = some ⟨6⟩ := by decide
  refine ⟨by decide, ?_, hunshared, ?_, hlookup, ?_⟩
  · intro hleaf
    exact absurd (ladder_reached ha hleaf) (by decide)
  · exact ⟨.own 0, [0, 0], .mention (.mention (.own rfl) ladder_find_a rfl) ladder_find_b rfl⟩
  · have hrun : ladder.classes.itinerary [] ⟨"p.A"⟩ ∈ ladder.classes.runs (climber ⟨"p.A"⟩) := by
      simp [ladder_runs]
    have hc : .enter ⟨"p.C"⟩ ∈ ladder.classes.itinerary [] ⟨"p.A"⟩ := by
      simp [ladder_itinerary_a]
    rw [hunshared.mem_closure_iff hrun hc hlookup, not_not]
    refine ⟨[.enter ⟨"p.A"⟩, .gather ⟨"p.B"⟩], ⟨"p.B"⟩, [.gather ⟨"p.C"⟩, .enter ⟨"p.C"⟩],
      ladder_itinerary_a, by decide, ⟨by simp, by decide⟩, by simp, ?_⟩
    rintro ⟨hgather, -⟩
    simp at hgather

end Hierarchy

end FactTypes
