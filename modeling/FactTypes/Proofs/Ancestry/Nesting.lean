import FactTypes.Proofs.Ancestry.Coverage
import FactTypes.Proofs.Ancestry.Superclasses

/-!
# How explorations are nested

The exploration as a machine that goes step by step. The path is a single list that all
explorations write: one of them puts its name in front before it turns to its interfaces,
and takes off what stands in front when it leaves them, be it behind the last one or at a
stop. That the path is the same again when an exploration returns, and that it may therefore
be passed down as an argument, is what is shown here.

At every moment of a run the path has the names of the explorations under way, the
innermost first, in front of the names that were there at the start. They are known and
distinct, so that no more explorations can be under way than there are known types.

## Main definitions

- `Walk` — what the machine writes: the closure and the names under exploration
- `Moment` — the state of the machine between two steps
- `Hierarchy.advance`, `Hierarchy.Reaches` — one step, and any number of them
- `Hierarchy.Returns` — an exploration ends with its result and the path that it was given
- `Hierarchy.Bracketed` — what holds at every moment
-/

namespace FactTypes

/-- The closure, and the names under exploration, the last one first. -/
structure Walk where
  closure : Closure
  path : List TypeName
deriving DecidableEq

/-- What an exploration is called with apart from its name. -/
def Visit.walk (v : Visit) : Walk :=
  ⟨v.closure, v.path⟩

/-- An exploration that has come to the interfaces of its name, and those that it has not
    explored yet. -/
structure Frame where
  name : TypeName
  rest : List TypeName
deriving DecidableEq

/-- What the machine does next. -/
inductive Stage where
  /-- It begins the exploration of a name. -/
  | call (n : TypeName)
  /-- The innermost exploration turns to its next interface. -/
  | loop (f : Frame)
  /-- An exploration ends. The answer `false` reports that it was stopped. -/
  | answer (more : Bool)
deriving DecidableEq

/-- The machine between two steps. The explorations that wait for the one at hand are in a
    list, the innermost first. -/
structure Moment where
  stage : Stage
  waiting : List Frame
  walk : Walk
deriving DecidableEq

namespace Moment

/-- The explorations that are at their interfaces, the innermost first. -/
def underway (u : Moment) : List Frame :=
  match u.stage with
  | .loop f => f :: u.waiting
  | _ => u.waiting

/-- How many calls of an exploration there are inside one another: the one at hand, and
    those that wait for it. -/
def depth (u : Moment) : Nat :=
  u.waiting.length + 1

/-- The moment at which an exploration has come to its result. -/
def answered (result : Except Closure Closure) (waiting : List Frame) (path : List TypeName) :
    Moment :=
  ⟨.answer result.isOk, waiting, ⟨Hierarchy.reached result, path⟩⟩

theorem depth_le_length_underway (u : Moment) : u.depth ≤ u.underway.length + 1 := by
  obtain ⟨stage, waiting, walk⟩ := u
  cases stage with
  | call n => exact Nat.le_refl _
  | loop f => exact Nat.le_succ _
  | answer more => exact Nat.le_refl _

end Moment

/-- What is added goes behind the members. -/
theorem Closure.prefix_members_collect (c : Closure) (found : Option Handle) :
    c.members <+: (c.collect found).members := by
  cases found with
  | none => exact List.prefix_rfl
  | some h =>
    rw [collect_some, members_insert]
    split
    · exact List.prefix_rfl
    · exact List.prefix_append _ _

namespace Hierarchy

/-- One step of the machine. There is none behind an answer for which nobody waits. An
    exploration that leaves its interfaces takes off whatever stands in front of the path. -/
def advance (w : Hierarchy) : Moment → Option Moment
  | ⟨.call n, waiting, ⟨c, path⟩⟩ =>
    if n ∈ path then some ⟨.answer true, waiting, ⟨c, path⟩⟩
    else
      match w.enter c n with
      | .error stopped => some ⟨.answer false, waiting, ⟨stopped, path⟩⟩
      | .ok entered =>
        match w.classes.find? n with
        | none => some ⟨.answer true, waiting, ⟨entered, path⟩⟩
        | some d =>
          some ⟨.loop ⟨n, d.interfaces⟩, waiting, ⟨d.interfaces.foldl w.gather entered, n :: path⟩⟩
  | ⟨.loop ⟨n, i :: rest⟩, waiting, walk⟩ => some ⟨.call i, ⟨n, rest⟩ :: waiting, walk⟩
  | ⟨.loop ⟨_, []⟩, waiting, ⟨c, path⟩⟩ => some ⟨.answer true, waiting, ⟨c, path.tail⟩⟩
  | ⟨.answer true, f :: waiting, walk⟩ => some ⟨.loop f, waiting, walk⟩
  | ⟨.answer false, _ :: waiting, ⟨c, path⟩⟩ => some ⟨.answer false, waiting, ⟨c, path.tail⟩⟩
  | ⟨.answer _, [], _⟩ => none

/-- Whether one moment comes after another in a run of the machine, or is the same. -/
def Reaches (w : Hierarchy) : Moment → Moment → Prop :=
  Relation.ReflTransGen fun u v => w.advance u = some v

/-- Whether a name is explored below a path with the result that `explore` has, and with
    the path as it was, whoever waits for the answer. -/
def Returns (w : Hierarchy) (path : List TypeName) (n : TypeName) : Prop :=
  ∀ c waiting, w.Reaches ⟨.call n, waiting, ⟨c, path⟩⟩ (.answered (w.explore path c n) waiting path)

variable {w : Hierarchy} {path front : List TypeName} {c d : Closure} {n m : TypeName}
  {waiting : List Frame} {u v : Moment} {start : Walk}

-- ═══════════════════════════════════════════════════════════════════════
-- The first step of an exploration
-- ═══════════════════════════════════════════════════════════════════════

theorem advance_of_mem_path (hpath : n ∈ path) :
    w.advance ⟨.call n, waiting, ⟨c, path⟩⟩ = some ⟨.answer true, waiting, ⟨c, path⟩⟩ := by
  rw [advance, if_pos hpath]

theorem advance_of_enter_error (hpath : n ∉ path) (henter : w.enter c n = .error d) :
    w.advance ⟨.call n, waiting, ⟨c, path⟩⟩ = some ⟨.answer false, waiting, ⟨d, path⟩⟩ := by
  rw [advance, if_neg hpath, henter]

theorem advance_of_unknown (hpath : n ∉ path) (henter : w.enter c n = .ok d)
    (hfound : w.classes.find? n = none) :
    w.advance ⟨.call n, waiting, ⟨c, path⟩⟩ = some ⟨.answer true, waiting, ⟨d, path⟩⟩ := by
  rw [advance, if_neg hpath, henter, hfound]

theorem advance_of_known {t : HostType} (hpath : n ∉ path) (henter : w.enter c n = .ok d)
    (hfound : w.classes.find? n = some t) :
    w.advance ⟨.call n, waiting, ⟨c, path⟩⟩ =
      some ⟨.loop ⟨n, t.interfaces⟩, waiting, ⟨t.interfaces.foldl w.gather d, n :: path⟩⟩ := by
  rw [advance, if_neg hpath, henter, hfound]

theorem prefix_of_sight_ok {e : Sighting} (hsight : w.sight c e = .ok d) :
    c.members <+: d.members := by
  by_cases hstop : w.Stops c e
  · rw [sight_of_stops hstop] at hsight
    cases hsight
  · rw [sight_of_not_stops hstop] at hsight
    obtain rfl := Except.ok.inj hsight
    exact c.prefix_members_collect _

theorem eq_of_sight_error {e : Sighting} (hsight : w.sight c e = .error d) : d = c := by
  by_cases hstop : w.Stops c e
  · rw [sight_of_stops hstop] at hsight
    exact (Except.error.inj hsight).symm
  · rw [sight_of_not_stops hstop] at hsight
    cases hsight

theorem prefix_foldl_gather (w : Hierarchy) (ns : List TypeName) (c : Closure) :
    c.members <+: (ns.foldl w.gather c).members := by
  induction ns generalizing c with
  | nil => exact List.prefix_rfl
  | cons n rest ih =>
    have hfirst : c.members <+: (w.gather c n).members :=
      prefix_of_sight_ok (e := .gather n) rfl
    exact hfirst.trans (ih (w.gather c n))

/-- An exploration ends at once and leaves the path alone, or it puts the name of a known
    type in front that is not on the path. It adds members behind those that are there. -/
theorem advance_call_cases (hstep : w.advance ⟨.call n, waiting, ⟨c, path⟩⟩ = some v) :
    (∃ more d, v = ⟨.answer more, waiting, ⟨d, path⟩⟩ ∧ c.members <+: d.members) ∨
      ∃ t d, n ∉ path ∧ w.classes.find? n = some t ∧
        v = ⟨.loop ⟨n, t.interfaces⟩, waiting, ⟨d, n :: path⟩⟩ ∧ c.members <+: d.members := by
  by_cases hpath : n ∈ path
  · rw [advance_of_mem_path hpath] at hstep
    exact .inl ⟨true, c, (Option.some.inj hstep).symm, List.prefix_rfl⟩
  · cases henter : w.enter c n with
    | error stopped =>
      rw [advance_of_enter_error hpath henter] at hstep
      obtain rfl := eq_of_sight_error (e := .enter n) henter
      exact .inl ⟨false, stopped, (Option.some.inj hstep).symm, List.prefix_rfl⟩
    | ok entered =>
      have hgrown : c.members <+: entered.members := prefix_of_sight_ok (e := .enter n) henter
      cases hfound : w.classes.find? n with
      | none =>
        rw [advance_of_unknown hpath henter hfound] at hstep
        exact .inl ⟨true, entered, (Option.some.inj hstep).symm, hgrown⟩
      | some t =>
        rw [advance_of_known hpath henter hfound] at hstep
        exact .inr ⟨t, _, hpath, rfl, (Option.some.inj hstep).symm,
          hgrown.trans (prefix_foldl_gather w _ _)⟩

theorem advance_answered {result : Except Closure Closure} :
    w.advance (.answered result [] path) = none := by
  cases result <;> rfl

-- ═══════════════════════════════════════════════════════════════════════
-- Every exploration returns
-- ═══════════════════════════════════════════════════════════════════════

/-- Interfaces that are explored to their end are left behind one after the other. -/
theorem reaches_loop (hcalls : ∀ i, w.Returns (n :: path) i)
    (hfront : front.foldlM (w.explore (n :: path)) c = .ok d) (back : List TypeName)
    (waiting : List Frame) :
    w.Reaches ⟨.loop ⟨n, front ++ back⟩, waiting, ⟨c, n :: path⟩⟩
      ⟨.loop ⟨n, back⟩, waiting, ⟨d, n :: path⟩⟩ := by
  induction front generalizing c with
  | nil =>
    obtain rfl := Except.ok.inj hfront
    exact .refl
  | cons i front ih =>
    rw [List.foldlM_cons] at hfront
    have hcall := hcalls i c (⟨n, front ++ back⟩ :: waiting)
    cases hi : w.explore (n :: path) c i with
    | error stopped =>
      rw [hi] at hfront
      cases hfront
    | ok c' =>
      rw [hi] at hfront hcall
      exact .head rfl (hcall.trans (.head rfl (ih hfront)))

/-- The exploration of the interfaces ends behind the last of them, or at the first that is
    stopped, and takes its name off the path in both cases. -/
theorem reaches_answered_of_loop (hcalls : ∀ i, w.Returns (n :: path) i) (is : List TypeName)
    (c : Closure) (waiting : List Frame) :
    w.Reaches ⟨.loop ⟨n, is⟩, waiting, ⟨c, n :: path⟩⟩
      (.answered (is.foldlM (w.explore (n :: path)) c) waiting path) := by
  cases hresult : is.foldlM (w.explore (n :: path)) c with
  | ok d =>
    have hend := reaches_loop hcalls hresult [] waiting
    rw [List.append_nil] at hend
    exact hend.tail rfl
  | error stopped =>
    obtain ⟨front, i, back, b, rfl, hfront, hi⟩ := foldlM_eq_error_iff.1 hresult
    have hstop := hcalls i b (⟨n, back⟩ :: waiting)
    rw [hi] at hstop
    exact (reaches_loop hcalls hfront (i :: back) waiting).trans (.head rfl (hstop.tail rfl))

/-- Every exploration returns. Every level leaves fewer known names that are not on the
    path, whatever is declared for them. -/
theorem returns (w : Hierarchy) (path : List TypeName) (n : TypeName) : w.Returns path n := by
  refine ClassPath.itinerary_induction (p := w.classes) (motive := w.Returns) ?_ ?_ ?_ path n
  · intro path n hpath c waiting
    rw [explore_of_mem_path hpath]
    exact .single (advance_of_mem_path hpath)
  · intro path n hpath hfound c waiting
    cases henter : w.enter c n with
    | error stopped =>
      rw [explore_of_enter_error hpath henter]
      exact .single (advance_of_enter_error hpath henter)
    | ok entered =>
      rw [explore_of_unknown hpath henter hfound]
      exact .single (advance_of_unknown hpath henter hfound)
  · intro path n t hpath hfound ih c waiting
    cases henter : w.enter c n with
    | error stopped =>
      rw [explore_of_enter_error hpath henter]
      exact .single (advance_of_enter_error hpath henter)
    | ok entered =>
      rw [explore_of_known hpath henter hfound]
      exact .head (advance_of_known hpath henter hfound) (reaches_answered_of_loop ih _ _ _)

-- ═══════════════════════════════════════════════════════════════════════
-- The explorations that are called
-- ═══════════════════════════════════════════════════════════════════════

/-- The run of an exploration comes to each exploration that it calls. -/
theorem Calls.reaches {a b : Visit} (hcall : w.Calls a b) (waiting : List Frame) :
    ∃ rest, w.Reaches ⟨.call a.name, waiting, a.walk⟩
      ⟨.call b.name, ⟨a.name, rest⟩ :: waiting, b.walk⟩ := by
  cases hcall with
  | @interface path c entered before n i d front back hpath henter hfound hsplit hfront =>
    have hloop := reaches_loop (w.returns (n :: path)) hfront (i :: back) waiting
    rw [← hsplit] at hloop
    exact ⟨back, .head (advance_of_known hpath henter hfound) (hloop.tail rfl)⟩

/-- It comes to those that are called further in as well. -/
theorem reaches_of_calls {a b : Visit} (hcalls : Relation.ReflTransGen w.Calls a b) :
    ∃ waiting, w.Reaches ⟨.call a.name, [], a.walk⟩ ⟨.call b.name, waiting, b.walk⟩ := by
  induction hcalls with
  | refl => exact ⟨[], .refl⟩
  | tail _ hcall ih =>
    obtain ⟨waiting, hrun⟩ := ih
    obtain ⟨rest, hnext⟩ := hcall.reaches waiting
    exact ⟨_, hrun.trans hnext⟩

-- ═══════════════════════════════════════════════════════════════════════
-- What holds at every moment
-- ═══════════════════════════════════════════════════════════════════════

/-- What holds at every moment of a run that starts with a walk. -/
structure Bracketed (w : Hierarchy) (start : Walk) (u : Moment) : Prop where
  /-- The explorations under way have put their names on the path, and nobody else has. -/
  path_eq : u.walk.path = u.underway.map Frame.name ++ start.path
  nodup : u.walk.path.Nodup
  known : ∀ m ∈ u.walk.path, m ∈ w.classes.names
  /-- Members are added behind those that are there. -/
  grown : start.closure.members <+: u.walk.closure.members

namespace Bracketed

/-- A step that neither begins with the interfaces of a name nor ends with them leaves the
    path alone. -/
theorem keep (hu : w.Bracketed start u)
    (hnames : v.underway.map Frame.name = u.underway.map Frame.name)
    (hpath : v.walk.path = u.walk.path)
    (hgrown : u.walk.closure.members <+: v.walk.closure.members) : w.Bracketed start v where
  path_eq := by rw [hpath, hnames, hu.path_eq]
  nodup := hpath ▸ hu.nodup
  known := hpath ▸ hu.known
  grown := hu.grown.trans hgrown

/-- What stands in front of the path when the innermost exploration under way ends is its
    own name. -/
theorem leave {f : Frame} {more : Bool} (hu : w.Bracketed start u)
    (hunderway : u.underway = f :: waiting) :
    w.Bracketed start ⟨.answer more, waiting, ⟨u.walk.closure, u.walk.path.tail⟩⟩ where
  path_eq := by
    show u.walk.path.tail = waiting.map Frame.name ++ start.path
    rw [hu.path_eq, hunderway]
    rfl
  nodup := hu.nodup.sublist (List.tail_sublist _)
  known := fun m hm => hu.known m (List.mem_of_mem_tail hm)
  grown := hu.grown

/-- An exploration puts its name in front of the path only where it is not on it. -/
theorem descend {t : HostType} (hu : w.Bracketed start ⟨.call n, waiting, ⟨c, path⟩⟩)
    (hpath : n ∉ path) (hfound : w.classes.find? n = some t)
    (hgrown : c.members <+: d.members) :
    w.Bracketed start ⟨.loop ⟨n, t.interfaces⟩, waiting, ⟨d, n :: path⟩⟩ where
  path_eq := congrArg (List.cons n) hu.path_eq
  nodup := List.nodup_cons.2 ⟨hpath, hu.nodup⟩
  known := List.forall_mem_cons.2 ⟨ClassPath.mem_names_iff.2 ⟨t, hfound⟩, hu.known⟩
  grown := hu.grown.trans hgrown

/-- A step keeps it. -/
theorem advance (hu : w.Bracketed start u) (hstep : w.advance u = some v) :
    w.Bracketed start v := by
  obtain ⟨stage, waiting, c, path⟩ := u
  cases stage with
  | call n =>
    rcases advance_call_cases hstep with
      ⟨more, d, rfl, hgrown⟩ | ⟨t, d, hpath, hfound, rfl, hgrown⟩
    · exact hu.keep rfl rfl hgrown
    · exact hu.descend hpath hfound hgrown
  | loop f =>
    obtain ⟨n, rest⟩ := f
    cases rest with
    | nil =>
      obtain rfl := Option.some.inj hstep
      exact hu.leave rfl
    | cons i rest =>
      obtain rfl := Option.some.inj hstep
      exact hu.keep rfl rfl List.prefix_rfl
  | answer more =>
    cases waiting with
    | nil => cases more <;> cases hstep
    | cons f waiting =>
      cases more with
      | true =>
        obtain rfl := Option.some.inj hstep
        exact hu.keep rfl rfl List.prefix_rfl
      | false =>
        obtain rfl := Option.some.inj hstep
        exact hu.leave rfl

/-- A run keeps it. -/
theorem of_reaches (hu : w.Bracketed start u) (hrun : w.Reaches u v) : w.Bracketed start v := by
  induction hrun with
  | refl => exact hu
  | tail _ hstep ih => exact ih.advance hstep

/-- The path has room for the known names only. -/
theorem depth_le (hu : w.Bracketed start u) :
    u.depth + start.path.length ≤ w.classes.size + 1 := by
  have hlength : u.underway.length + start.path.length = u.walk.path.length := by
    rw [hu.path_eq, List.length_append, List.length_map]
  have hroom : u.walk.path.length ≤ w.classes.size :=
    ClassPath.length_le_size_of_nodup hu.nodup hu.known
  have hdepth := u.depth_le_length_underway
  omega

end Bracketed

/-- At the start nothing is under way. -/
theorem bracketed_call (hnodup : start.path.Nodup)
    (hknown : ∀ m ∈ start.path, m ∈ w.classes.names) (n : TypeName) :
    w.Bracketed start ⟨.call n, [], start⟩ where
  path_eq := rfl
  nodup := hnodup
  known := hknown
  grown := List.prefix_rfl

/-- The run ends at an answer for which nobody waits, so whatever it comes to is on the way
    there. -/
theorem reaches_answered_of_reaches {result : Except Closure Closure}
    (hend : w.Reaches u (.answered result [] path)) (hrun : w.Reaches u v) :
    w.Reaches v (.answered result [] path) := by
  have hunique : Relator.RightUnique fun u v => w.advance u = some v :=
    fun _ _ _ ha hb => Option.some.inj (ha.symm.trans hb)
  rcases Relation.ReflTransGen.total_of_right_unique hunique hend hrun with hbehind | hahead
  · rcases hbehind.cases_head with rfl | ⟨_, hstep, -⟩
    · exact .refl
    · rw [advance_answered] at hstep
      cases hstep
  · exact hahead

/-- An exploration ends, and the explorations within it are nested. It is begun with any
    closure and with a path of distinct known names. Whoever waits for it gets the result of
    `explore`, whether it was stopped or not, and the path as it was; when nobody waits, there
    is no step behind this answer, and every moment of the run is on the way to it. At each of
    them the path has the names of the explorations under way in front of those at the
    start; its names are distinct and known, so that the calls inside one another exceed the
    known types by one at most. All explorations that are called, at any depth, are begun
    at such moments. The members at the start are the first ones of those at the end. -/
theorem explore_bracketed (w : Hierarchy) (walk : Walk) (n : TypeName)
    (hnodup : walk.path.Nodup) (hknown : ∀ m ∈ walk.path, m ∈ w.classes.names) :
    (∀ waiting, w.Reaches ⟨.call n, waiting, walk⟩
        (.answered (w.explore walk.path walk.closure n) waiting walk.path)) ∧
      w.advance (.answered (w.explore walk.path walk.closure n) [] walk.path) = none ∧
      (∀ u, w.Reaches ⟨.call n, [], walk⟩ u →
        w.Reaches u (.answered (w.explore walk.path walk.closure n) [] walk.path) ∧
          u.walk.path = u.underway.map Frame.name ++ walk.path ∧
          u.walk.path.Nodup ∧ (∀ m ∈ u.walk.path, m ∈ w.classes.names) ∧
          u.depth + walk.path.length ≤ w.classes.size + 1) ∧
      (∀ v, Relation.ReflTransGen w.Calls ⟨walk.path, walk.closure, n⟩ v →
        ∃ waiting, w.Reaches ⟨.call n, [], walk⟩ ⟨.call v.name, waiting, v.walk⟩) ∧
      walk.closure.members <+: (reached (w.explore walk.path walk.closure n)).members := by
  have hstart : w.Bracketed walk ⟨.call n, [], walk⟩ := bracketed_call hnodup hknown n
  have hreturns := w.returns walk.path n walk.closure
  refine ⟨hreturns, advance_answered, ?_, fun v hcalls => reaches_of_calls hcalls, ?_⟩
  · intro u hrun
    have hu := hstart.of_reaches hrun
    exact ⟨reaches_answered_of_reaches (hreturns []) hrun, hu.path_eq, hu.nodup, hu.known,
      hu.depth_le⟩
  · exact (hstart.of_reaches (hreturns [])).grown

/-- The walk in the circle at the second trait, with the root trait as a member. -/
def circleWalk : Walk :=
  ⟨{ subject := ⟨9⟩, ancestors := [⟨3⟩] }, [⟨"p.Even"⟩]⟩

/-- The second trait is not declared. -/
private theorem circle_enter_odd :
    circle.enter circleWalk.closure ⟨"p.Odd"⟩ = .ok circleWalk.closure :=
  rfl

/-- It passes the first one over and is stopped at the root trait. -/
private theorem explore_circleWalk :
    circle.explore circleWalk.path circleWalk.closure ⟨"p.Odd"⟩ = .error circleWalk.closure := by
  have hthing : circle.explore (⟨"p.Odd"⟩ :: circleWalk.path) circleWalk.closure
      ⟨"engine.traits.Thing"⟩ = .error circleWalk.closure :=
    explore_of_enter_error (by decide) rfl
  rw [explore_of_known (by decide) circle_enter_odd circle_find_odd]
  show (circle.explore _ circleWalk.closure ⟨"p.Even"⟩ >>= _) = _
  rw [explore_of_mem_path (by decide)]
  show (circle.explore _ circleWalk.closure _ >>= _) = _
  rw [hthing]
  rfl

/-- The stop in the circle leaves the path as it was. Before it, all known types are on the
    path, and one more exploration has been called. -/
theorem explore_bracketed_circle :
    let thing : Moment := ⟨.call ⟨"engine.traits.Thing"⟩, [⟨⟨"p.Odd"⟩, []⟩],
      ⟨circleWalk.closure, [⟨"p.Odd"⟩, ⟨"p.Even"⟩]⟩⟩
    circleWalk.path.Nodup ∧ (∀ m ∈ circleWalk.path, m ∈ circle.classes.names) ∧
      circle.Reaches ⟨.call ⟨"p.Odd"⟩, [], circleWalk⟩ ⟨.answer false, [], circleWalk⟩ ∧
      circle.Reaches ⟨.call ⟨"p.Odd"⟩, [], circleWalk⟩ thing ∧
      thing.walk.path.Nodup ∧ thing.depth + circleWalk.path.length ≤ circle.classes.size + 1 ∧
      thing.depth + circleWalk.path.length = 3 ∧ circle.classes.size = 2 := by
  intro thing
  have hnodup : circleWalk.path.Nodup := by decide
  have hknown : ∀ m ∈ circleWalk.path, m ∈ circle.classes.names := by decide
  have hrun : circle.Reaches ⟨.call ⟨"p.Odd"⟩, [], circleWalk⟩ thing := by
    refine .head (advance_of_known (by decide) circle_enter_odd circle_find_odd) ?_
    refine .head rfl (.head (advance_of_mem_path (by decide)) ?_)
    exact .head rfl (.single rfl)
  obtain ⟨hreturns, -, hmoments, -, -⟩ :=
    explore_bracketed circle circleWalk ⟨"p.Odd"⟩ hnodup hknown
  obtain ⟨-, -, hdistinct, -, hdepth⟩ := hmoments thing hrun
  have hanswer := hreturns []
  rw [explore_circleWalk] at hanswer
  exact ⟨hnodup, hknown, hanswer, hrun, hdistinct, hdepth, rfl, by decide⟩

end Hierarchy

end FactTypes
