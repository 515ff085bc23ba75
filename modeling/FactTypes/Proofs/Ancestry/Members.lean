import Mathlib.Data.List.Nodup
import FactTypes.Proofs.Ancestry.Itinerary

/-!
# The members of a closure

A walk only ever adds what one of its look-ups has found, behind what is there
already. So whatever holds of a fresh closure and survives such an addition
holds of every closure. Where no look-up finds the subject, it makes no
difference which subject that is.
-/

namespace FactTypes

namespace Closure

/-- The same ancestors for another subject. -/
def withSubject (c : Closure) (h : Handle) : Closure :=
  { c with subject := h }

theorem insert_eq (c : Closure) (h : Handle) :
    c.insert h = if h ∈ c.members then c else { c with ancestors := c.ancestors ++ [h] } := by
  unfold insert insert?
  split <;> rfl

end Closure

namespace Hierarchy

/-- Whether some look-up finds the declaration. -/
def Finds (w : Hierarchy) (h : Handle) : Prop :=
  ∃ e, w.found e = some h

variable {w : Hierarchy} {cls : HostType} {c : Closure} {subject h k : Handle}
  {run : List Sighting}

/-- The tables of the walk are those of the engine and of the packages. -/
theorem finds_iff :
    w.Finds h ↔ ∃ n, w.builtins.find? n = some h ∨ w.packages.lookup n = some h := by
  constructor
  · rintro ⟨e, he⟩
    refine ⟨e.name, ?_⟩
    cases e with
    | enter n =>
      change (w.builtins.find? n).or (w.packages.lookup n) = some h at he
      rcases Option.or_eq_some_iff.1 he with hbuiltin | ⟨-, hfiled⟩
      · exact Or.inl hbuiltin
      · exact Or.inr hfiled
    | gather n => exact Or.inr he
  · rintro ⟨n, hbuiltin | hfiled⟩
    · refine ⟨.enter n, ?_⟩
      show (w.builtins.find? n).or (w.packages.lookup n) = some h
      rw [hbuiltin, Option.some_or]
    · exact ⟨.gather n, hfiled⟩

/-- What survives every addition survives a run. -/
theorem follow_induction {motive : Closure → Prop}
    (hadd : ∀ c h, motive c → w.Finds h → h ∉ c.members →
      motive { c with ancestors := c.ancestors ++ [h] })
    (hc : motive c) (run : List Sighting) : motive (w.follow c run) := by
  induction run generalizing c with
  | nil => exact hc
  | cons e rest ih =>
    by_cases hstop : w.Stops c e
    · rw [follow_of_stops hstop]
      exact hc
    · rw [follow_of_not_stops hstop]
      apply ih
      cases hfound : w.found e with
      | none => exact hc
      | some h =>
        rw [Closure.collect_some, Closure.insert_eq]
        split
        · exact hc
        · next hnew => exact hadd c h hc ⟨e, hfound⟩ hnew

/-- What holds of the subject alone and survives every addition holds of the
    closure. -/
theorem closure_induction {motive : Closure → Prop} (w : Hierarchy) (cls : HostType)
    (hnew : motive (.new subject))
    (hadd : ∀ c h, motive c → w.Finds h → h ∉ c.members →
      motive { c with ancestors := c.ancestors ++ [h] }) :
    motive (w.closure cls subject) := by
  rw [closure_eq_foldl]
  -- the runs follow one another, so the induction is on their list
  generalize w.classes.runs cls = runs
  generalize Closure.new subject = c at hnew
  induction runs generalizing c with
  | nil => exact hnew
  | cons run rest ih => exact ih (w.follow c run) (follow_induction hadd hnew run)

@[simp] theorem subject_closure (w : Hierarchy) (cls : HostType) (subject : Handle) :
    (w.closure cls subject).subject = subject := by
  refine closure_induction (motive := fun c => c.subject = subject) w cls rfl ?_
  intro c h hc _ _
  exact hc

/-- An ancestor comes from one of the tables. -/
theorem finds_of_mem_ancestors (hmem : h ∈ (w.closure cls subject).ancestors) : w.Finds h := by
  revert hmem
  refine closure_induction (motive := fun c => h ∈ c.ancestors → w.Finds h) w cls ?_ ?_
  · intro hmem
    exact absurd hmem List.not_mem_nil
  · intro c k hc hfinds _ hmem
    rcases List.mem_append.1 hmem with hold | hadded
    · exact hc hold
    · rw [List.mem_singleton.1 hadded]
      exact hfinds

/-- No declaration is a member twice. -/
theorem nodup_members_closure (w : Hierarchy) (cls : HostType) (subject : Handle) :
    (w.closure cls subject).members.Nodup := by
  refine closure_induction (motive := fun c => c.members.Nodup) w cls (List.nodup_singleton _) ?_
  intro c h hc _ hnew
  show (c.members ++ [h]).Nodup
  rw [List.nodup_append]
  refine ⟨hc, List.nodup_singleton h, fun a ha b hb heq => hnew ?_⟩
  rwa [← List.mem_singleton.1 hb, ← heq]

/-- The ancestors are the members other than the subject. -/
theorem filter_members_closure (w : Hierarchy) (cls : HostType) (subject : Handle) :
    (w.closure cls subject).members.filter (fun a => a ≠ subject) =
      (w.closure cls subject).ancestors := by
  have hnodup := w.nodup_members_closure cls subject
  rw [Closure.members, subject_closure, List.nodup_cons] at hnodup
  rw [Closure.members, subject_closure, List.filter_cons_of_neg (by simp), List.filter_eq_self]
  intro a ha
  simpa using fun heq : a = subject => hnodup.1 (heq ▸ ha)

private theorem mem_members_withSubject (hfound : w.Finds k) (hc : ¬w.Finds c.subject)
    (hh : ¬w.Finds h) : k ∈ (c.withSubject h).members ↔ k ∈ c.members := by
  have hother : ∀ s, ¬w.Finds s → k ≠ s := fun s hs heq => hs (heq ▸ hfound)
  simp only [Closure.members, Closure.withSubject, List.mem_cons, hother _ hc, hother _ hh]

private theorem stops_withSubject (e : Sighting) (hc : ¬w.Finds c.subject) (hh : ¬w.Finds h) :
    w.Stops (c.withSubject h) e ↔ w.Stops c e := by
  constructor
  · rintro ⟨n, k, rfl, hlookup, hmem⟩
    exact ⟨n, k, rfl, hlookup, (mem_members_withSubject ⟨.enter n, hlookup⟩ hc hh).1 hmem⟩
  · rintro ⟨n, k, rfl, hlookup, hmem⟩
    exact ⟨n, k, rfl, hlookup, (mem_members_withSubject ⟨.enter n, hlookup⟩ hc hh).2 hmem⟩

private theorem collect_withSubject (e : Sighting) (hc : ¬w.Finds c.subject) (hh : ¬w.Finds h) :
    (c.withSubject h).collect (w.found e) = (c.collect (w.found e)).withSubject h := by
  cases hfound : w.found e with
  | none => rfl
  | some k =>
    rw [Closure.collect_some, Closure.collect_some, Closure.insert_eq, Closure.insert_eq]
    simp only [mem_members_withSubject ⟨e, hfound⟩ hc hh]
    split <;> rfl

theorem follow_withSubject (hc : ¬w.Finds c.subject) (hh : ¬w.Finds h) (run : List Sighting) :
    w.follow (c.withSubject h) run = (w.follow c run).withSubject h := by
  induction run generalizing c with
  | nil => rfl
  | cons e rest ih =>
    by_cases hstop : w.Stops c e
    · rw [follow_of_stops hstop, follow_of_stops ((stops_withSubject e hc hh).2 hstop)]
    · have hstop' : ¬w.Stops (c.withSubject h) e := mt (stops_withSubject e hc hh).1 hstop
      have hsubject : (c.collect (w.found e)).subject = c.subject := by
        cases w.found e with
        | none => rfl
        | some k =>
          rw [Closure.collect_some, Closure.insert_eq]
          split <;> rfl
      rw [follow_of_not_stops hstop, follow_of_not_stops hstop', collect_withSubject e hc hh]
      exact ih (hsubject ▸ hc)

/-- Subjects that no look-up finds have the same ancestors. -/
theorem closure_withSubject (hh : ¬w.Finds h) (hk : ¬w.Finds k) :
    w.closure cls k = (w.closure cls h).withSubject k := by
  have hrun : ∀ (runs : List (List Sighting)) (c : Closure), ¬w.Finds c.subject →
      runs.foldl w.follow (c.withSubject k) = (runs.foldl w.follow c).withSubject k := by
    intro runs
    induction runs with
    | nil => exact fun c _ => rfl
    | cons run rest ih =>
      intro c hc
      have hsubject : (w.follow c run).subject = c.subject :=
        follow_induction (motive := fun d => d.subject = c.subject) (fun _ _ hd _ _ => hd) rfl run
      rw [List.foldl_cons, List.foldl_cons, follow_withSubject hc hk]
      exact ih _ (hsubject ▸ hc)
  rw [closure_eq_foldl, closure_eq_foldl]
  exact hrun _ (.new h) hh

end Hierarchy

end FactTypes
