import Mathlib.Data.List.Perm.Subperm
import FactTypes.Proofs.Ancestry.Chain

/-!
# How far the superclass chain goes

A chain of superclasses is a sequence of types in which each one is the known type of the
superclass of the one before it, and no name comes back. Every such chain of a type begins
the one that is computed. So that one is the longest: it ends only where no further type
may follow.
-/

namespace FactTypes

namespace ClassPath

/-- Whether types follow one another up from a type when some names have been met: each is
    the known type of the effective superclass of the one before it, and neither that name
    nor any other is met twice. -/
inductive Ascends (p : ClassPath) : List TypeName → HostType → List HostType → Prop where
  | nil {met : List TypeName} {d : HostType} : Ascends p met d []
  | cons {met : List TypeName} {d e : HostType} {rest : List HostType}
    (hsuper : d.effectiveSuperclass = some e.name) (hknown : p.find? e.name = some e)
    (hnew : e.name ∉ met) (hrest : Ascends p (e.name :: met) e rest) :
    Ascends p met d (e :: rest)

variable {p : ClassPath} {met : List TypeName} {c d e : HostType} {ds before after : List HostType}
  {n : TypeName}

/-- The chains from a type are the beginnings of the one that is computed. -/
theorem ascends_iff_prefix_chainFrom :
    p.Ascends met d ds ↔ ds <+: p.chainFrom met d.effectiveSuperclass := by
  induction ds generalizing met d with
  | nil => exact iff_of_true .nil List.nil_prefix
  | cons e rest ih =>
    constructor
    · rintro (_ | ⟨hsuper, hknown, hnew, hrest⟩)
      rw [hsuper, chainFrom_of_known hnew hknown]
      exact List.cons_prefix_cons.2 ⟨rfl, ih.1 hrest⟩
    · intro hprefix
      cases hsuper : d.effectiveSuperclass with
      | none =>
        rw [hsuper, chainFrom_none, List.prefix_nil] at hprefix
        cases hprefix
      | some n =>
        by_cases hmet : n ∈ met
        · rw [hsuper, chainFrom_some, if_pos hmet, List.prefix_nil] at hprefix
          cases hprefix
        · cases hfound : p.find? n with
          | none =>
            rw [hsuper, chainFrom_some, if_neg hmet, hfound, List.prefix_nil] at hprefix
            cases hprefix
          | some known =>
            rw [hsuper, chainFrom_of_known hmet hfound, List.cons_prefix_cons] at hprefix
            obtain ⟨rfl, hrest⟩ := hprefix
            obtain rfl : e.name = n := name_eq_of_find? hfound
            exact .cons hsuper hfound hmet (ih.2 hrest)

/-- A chain goes on with the known type of the superclass of its last type, if the name is
    new. -/
theorem Ascends.concat (hds : p.Ascends met d ds)
    (hsuper : (ds.getLast?.getD d).effectiveSuperclass = some e.name)
    (hknown : p.find? e.name = some e) (hnew : e.name ∉ met)
    (hfresh : e.name ∉ ds.map HostType.name) : p.Ascends met d (ds ++ [e]) := by
  induction hds with
  | nil => exact .cons hsuper hknown hnew .nil
  | @cons met d first rest hfirst hfound hfirstNew _ ih =>
    rw [List.map_cons, List.mem_cons, not_or] at hfresh
    rw [List.getLast?_cons, Option.getD_some] at hsuper
    refine .cons hfirst hfound hfirstNew (ih hsuper ?_ hfresh.2)
    exact fun hback => (List.mem_cons.1 hback).elim hfresh.1 hnew

/-- Each type of a chain has the next one as its superclass. -/
theorem Ascends.effectiveSuperclass_of_split (hds : p.Ascends met c ds)
    (hsplit : c :: ds = before ++ d :: e :: after) : d.effectiveSuperclass = some e.name := by
  induction hds generalizing before with
  | nil => cases before <;> simp at hsplit
  | cons hsuper _ _ _ ih =>
    cases before with
    | nil =>
      obtain ⟨rfl, hrest⟩ := List.cons.inj hsplit
      obtain ⟨rfl, -⟩ := List.cons.inj hrest
      exact hsuper
    | cons _ before => exact ih (List.cons.inj hsplit).2

theorem ascends_superclasses (p : ClassPath) (c : HostType) :
    p.Ascends [c.name] c (p.superclasses c) :=
  ascends_iff_prefix_chainFrom.2 List.prefix_rfl

/-- Behind the last superclass stands nothing, or a name that is not known, or one that
    was met. -/
theorem unknown_or_met_of_last
    (hsuper : ((p.superclasses c).getLast?.getD c).effectiveSuperclass = some n) :
    p.find? n = none ∨ n ∈ c.name :: (p.superclasses c).map HostType.name := by
  by_contra hfurther
  obtain ⟨hfound, hnew⟩ := not_or.1 hfurther
  obtain ⟨e, hknown⟩ := Option.ne_none_iff_exists'.1 hfound
  obtain rfl : e.name = n := name_eq_of_find? hknown
  rw [List.mem_cons, not_or] at hnew
  have hlonger : p.Ascends [c.name] c (p.superclasses c ++ [e]) :=
    (p.ascends_superclasses c).concat hsuper hknown (by simpa using hnew.1) hnew.2
  have hlength := (ascends_iff_prefix_chainFrom.1 hlonger).length_le
  rw [List.length_append] at hlength
  exact Nat.not_succ_le_self _ hlength

/-- The root is not a superclass. -/
theorem name_ne_root_of_mem_superclasses (hd : d ∈ p.superclasses c) : d.name ≠ TypeName.root := by
  obtain ⟨before, after, hsplit⟩ := List.append_of_mem hd
  obtain ⟨front, last, hfront⟩ : ∃ front last, c :: before = front ++ [last] :=
    ⟨_, _, (List.dropLast_concat_getLast (List.cons_ne_nil c before)).symm⟩
  have hline : c :: p.superclasses c = front ++ last :: d :: after := by
    rw [hsplit, ← List.cons_append, hfront, List.append_assoc]
    rfl
  have hsuper := (p.ascends_superclasses c).effectiveSuperclass_of_split hline
  exact (HostType.effectiveSuperclass_eq_some_iff.1 hsuper).2.2

/-- An interface ends the chain. -/
theorem eq_nil_of_isInterface (hline : c :: p.superclasses c = before ++ d :: after)
    (hd : d.isInterface = true) : after = [] := by
  cases after with
  | nil => rfl
  | cons e after =>
    have hsuper := (p.ascends_superclasses c).effectiveSuperclass_of_split hline
    rw [HostType.effectiveSuperclass, if_pos hd] at hsuper
    cases hsuper

/-- Distinct known names are at most as many as the types of the class path. -/
theorem length_le_size_of_nodup {ns : List TypeName} (hnodup : ns.Nodup)
    (hknown : ∀ n ∈ ns, n ∈ p.names) : ns.length ≤ p.size :=
  calc ns.length
      ≤ p.names.length := (List.subperm_of_subset hnodup hknown).length_le
    _ = p.size := Std.ExtTreeMap.length_keys

theorem length_superclasses_le (p : ClassPath) (c : HostType) :
    (p.superclasses c).length ≤ p.size := by
  rw [← List.length_map HostType.name]
  refine length_le_size_of_nodup (p.nodup_map_name_superclasses c) fun n hn => ?_
  obtain ⟨d, hd, rfl⟩ := List.mem_map.1 hn
  exact mem_names_iff.2 ⟨d, (find?_of_mem_superclasses hd).1⟩

/-- The superclasses of a type are its longest chain, for every class path and every type,
    known or not. Any chain from the type is a beginning of it; behind its last type stands
    no superclass, or one that is not known, or one whose name was met. No name in it comes
    twice, and neither does that of the type; the root is not in it; it has at most as many
    types as the class path, and none behind an interface. -/
theorem superclasses_longest (p : ClassPath) (c : HostType) :
    (∀ ds, p.Ascends [c.name] c ds ↔ ds <+: p.superclasses c) ∧
      (∀ n, ((p.superclasses c).getLast?.getD c).effectiveSuperclass = some n →
        p.find? n = none ∨ n ∈ c.name :: (p.superclasses c).map HostType.name) ∧
      (c.name :: (p.superclasses c).map HostType.name).Nodup ∧
      TypeName.root ∉ (p.superclasses c).map HostType.name ∧
      (p.superclasses c).length ≤ p.size ∧
      ∀ before d after, c :: p.superclasses c = before ++ d :: after →
        d.isInterface = true → after = [] := by
  refine ⟨fun ds => ascends_iff_prefix_chainFrom, fun n => unknown_or_met_of_last, ?_, ?_,
    p.length_superclasses_le c, fun before d after => eq_nil_of_isInterface⟩
  · refine List.nodup_cons.2 ⟨fun hself => ?_, p.nodup_map_name_superclasses c⟩
    obtain ⟨d, hd, hname⟩ := List.mem_map.1 hself
    exact (find?_of_mem_superclasses hd).2 hname
  · intro hroot
    obtain ⟨d, hd, hname⟩ := List.mem_map.1 hroot
    exact name_ne_root_of_mem_superclasses hd hname

/-- Two types that extend each other have one superclass each. -/
example :
    let a : HostType := { name := ⟨"a.A"⟩, superclass := some ⟨"a.B"⟩ }
    let b : HostType := { name := ⟨"a.B"⟩, superclass := some ⟨"a.A"⟩ }
    (ofList [a, b]).superclasses a = [b] := by
  intro a b
  have hb : (ofList [a, b]).find? b.name = some b := by decide
  show (ofList [a, b]).chainFrom [a.name] (some b.name) = _
  rw [chainFrom_of_known (by decide) hb]
  show b :: (ofList [a, b]).chainFrom _ (some a.name) = _
  rw [chainFrom_some, if_pos (by decide)]

end ClassPath

end FactTypes
