import Mathlib.Data.List.Induction
import Mathlib.Data.List.Nodup
import FactTypes.Ancestry.Walk

/-!
# What the packages hold

The packages are tables within a table, and their keys are taken from a name that is given
or from the name of a declaration. What they hold can be told from the log of all that was
done to them: in the place of a package and a simple name stands the declaration that was
filed there last, unless it was removed since.

## Main definitions

- `Packages.Operation`, `Packages.Step` — what can be done to the packages, and the
  declarations as they stand then
- `Packages.ofLog` — the packages after a log of steps
- `Packages.Stands` — a declaration stands in a place, as the log has it
- `Packages.Counts` — a number is that of the places with a property
- `Packages.Follows` — packages that hold what a log says
-/

namespace FactTypes

open Std

namespace Packages

/-- What can be done to the packages. The last three are done within a package; where
    there is none of the name, nothing happens. -/
inductive Operation where
  | ensure (package : String)
  | declare (h : Handle)
  | file (package : String) (h : Handle)
  | dropFrom (r : Resource)
  | fileWithin (package : String) (h : Handle)
  | eraseWithin (package simpleName : String)
  | dropWithin (package : String) (r : Resource)

/-- An operation, and the declarations as they stand when it is done. -/
structure Step where
  store : Store
  operation : Operation

namespace Step

/-- The packages after the step. -/
def apply (ps : Packages) (e : Step) : Packages :=
  match e.operation with
  | .ensure package => ps.ensure package
  | .declare h => ps.declare e.store h
  | .file package h => ps.file e.store package h
  | .dropFrom r => ps.dropFrom e.store r
  | .fileWithin package h => ps.modify package fun t => t.file e.store h
  | .eraseWithin package simpleName => ps.modify package fun t => t.erase simpleName
  | .dropWithin package r => ps.modify package fun t => t.dropFrom e.store r

/-- The number that a step reports: that of the declarations that it drops. -/
def reported (ps : Packages) (e : Step) : Nat :=
  match e.operation with
  | .dropFrom r => ps.countFrom e.store r
  | .dropWithin package r => ((ps.package? package).map fun t => t.countFrom e.store r).getD 0
  | _ => 0

/-- The package that is there after the step even if it was missing. -/
def made? (e : Step) : Option String :=
  match e.operation with
  | .ensure package => some package
  | .declare h => some (e.store.nameOf h).package
  | .file package _ => some package
  | _ => none

/-- The declaration that a step files. -/
def filed? (e : Step) : Option Handle :=
  match e.operation with
  | .declare h => some h
  | .file _ h => some h
  | .fileWithin _ h => some h
  | _ => none

/-- The place that a step sets, be it that something is filed there or that what is filed
    there is removed: a package, and a simple name in it. -/
def place? (e : Step) : Option (String × String) :=
  match e.operation with
  | .declare h => some ((e.store.nameOf h).package, (e.store.nameOf h).simpleName)
  | .file package h => some (package, (e.store.nameOf h).simpleName)
  | .fileWithin package h => some (package, (e.store.nameOf h).simpleName)
  | .eraseWithin package simpleName => some (package, simpleName)
  | _ => none

/-- The resource whose declarations a step drops. -/
def resource? (e : Step) : Option Resource :=
  match e.operation with
  | .dropFrom r => some r
  | .dropWithin _ r => some r
  | _ => none

/-- Whether a step drops a declaration that is filed under a package, because of the
    resource that it came from. -/
def drops (e : Step) (package : String) (h : Handle) : Bool :=
  match e.operation with
  | .dropFrom r => (e.store.get h).isFrom r
  | .dropWithin within r => within = package && (e.store.get h).isFrom r
  | _ => false

end Step

/-- What the steps of a log make of no packages. -/
def ofLog (log : List Step) : Packages :=
  log.foldl Step.apply .empty

/-- Whether a declaration stands in a place, as the log has it. It was filed there, under a
    package that was there by then, and since then nothing else was done to the place and
    the declaration was not dropped. -/
def Stands (log : List Step) (package simpleName : String) (h : Handle) : Prop :=
  ∃ before e after, log = before ++ e :: after ∧
    (∃ maker ∈ before ++ [e], maker.made? = some package) ∧
    e.place? = some (package, simpleName) ∧ e.filed? = some h ∧
    ∀ later ∈ after, later.place? ≠ some (package, simpleName) ∧ later.drops package h = false

/-- Whether every package bears the name under which it is kept. -/
def WellNamed (ps : Packages) : Prop :=
  ∀ {package t}, ps.package? package = some t → t.name = package

/-- Whether a number is that of the places with a property. -/
def Counts (holds : String → String → Prop) (count : Nat) : Prop :=
  ∃ places : List (String × String), places.Nodup ∧ places.length = count ∧
    ∀ package simpleName, (package, simpleName) ∈ places ↔ holds package simpleName

/-- Packages that hold what a log says. -/
structure Follows (ps : Packages) (log : List Step) : Prop where
  /-- In a place is found what stands there. -/
  found : ∀ package simpleName h,
    ps.find? package simpleName = some h ↔ Stands log package simpleName h
  named : ps.WellNamed
  /-- A declaration is kept under its simple name, as long as it bears the name under which
      it was filed. -/
  keyed : ∀ package simpleName h, ps.find? package simpleName = some h →
    ∀ s : Store, (∀ e ∈ log, e.filed? = some h → s.nameOf h = e.store.nameOf h) →
      (s.nameOf h).simpleName = simpleName
  /-- A step that drops no resource changes the place that it sets and no other. -/
  others : ∀ e : Step, e.resource? = none → ∀ package simpleName,
    e.place? ≠ some (package, simpleName) →
      (e.apply ps).find? package simpleName = ps.find? package simpleName
  /-- One that drops a resource leaves everything but what came from it. -/
  dropped : ∀ e : Step, e.resource?.isSome = true → ∀ package simpleName h,
    (e.apply ps).find? package simpleName = some h ↔
      ps.find? package simpleName = some h ∧ e.drops package h = false
  counted : ∀ e : Step, Counts (fun package simpleName =>
    ∃ h, ps.find? package simpleName = some h ∧ e.drops package h = true) (e.reported ps)
  /-- What was just declared is what its name stands for, unless that is one of the engine's
      own. -/
  looked : ∀ (w : Hierarchy) (s : Store) (h : Handle), w.packages = ps.declare s h →
    w.lookup (s.nameOf h) = (w.builtins.find? (s.nameOf h)).or (some h)

variable {ps : Packages} {t : Package} {e : Step} {log : List Step} {s : Store} {r : Resource}
  {h : Handle} {package simpleName : String}

-- ═══════════════════════════════════════════════════════════════════════
-- One step
-- ═══════════════════════════════════════════════════════════════════════

/-- Packages stay, and some steps make one. -/
theorem hasPackage_apply :
    (e.apply ps).hasPackage package = true ↔
      ps.hasPackage package = true ∨ e.made? = some package := by
  obtain ⟨s, operation⟩ := e
  cases operation with
  | ensure made =>
    simp only [Step.apply, Step.made?, hasPackage, package?_ensure]
    by_cases heq : made = package <;> simp [heq]
  | declare h =>
    simp only [Step.apply, Step.made?, hasPackage, declare, package?_file]
    by_cases heq : (s.nameOf h).package = package <;> simp [heq]
  | file made h =>
    simp only [Step.apply, Step.made?, hasPackage, package?_file]
    by_cases heq : made = package <;> simp [heq]
  | dropFrom r => simp [Step.apply, Step.made?, hasPackage, package?_dropFrom]
  | fileWithin changed h =>
    simp only [Step.apply, Step.made?, hasPackage, package?_modify]
    split <;> simp
  | eraseWithin changed simpleName =>
    simp only [Step.apply, Step.made?, hasPackage, package?_modify]
    split <;> simp
  | dropWithin changed r =>
    simp only [Step.apply, Step.made?, hasPackage, package?_modify]
    split <;> simp

/-- What a step does to a place. The place that it sets holds what it files, if the package
    is there; any other place keeps what is there, unless the step drops it. -/
theorem find?_apply_iff :
    (e.apply ps).find? package simpleName = some h ↔
      if e.place? = some (package, simpleName) then
        e.filed? = some h ∧ (ps.hasPackage package = true ∨ e.made? = some package)
      else ps.find? package simpleName = some h ∧ e.drops package h = false := by
  obtain ⟨s, operation⟩ := e
  cases operation with
  | ensure made => simp [Step.apply, Step.place?, Step.drops]
  | declare k =>
    simp only [Step.apply, Step.place?, Step.filed?, Step.drops, Step.made?,
      declare, find?_file, Option.some.injEq, Prod.mk.injEq]
    split <;> simp_all
  | file filed k =>
    simp only [Step.apply, Step.place?, Step.filed?, Step.drops, Step.made?,
      find?_file, Option.some.injEq, Prod.mk.injEq]
    split <;> simp_all
  | dropFrom r =>
    simp [Step.apply, Step.place?, Step.drops, find?_dropFrom, Option.filter_eq_some_iff]
  | fileWithin changed k =>
    simp only [Step.apply, Step.place?, Step.filed?, Step.drops, Step.made?,
      find?_modify, Option.some.injEq, Prod.mk.injEq]
    by_cases hchanged : changed = package
    · cases hpackage : ps.package? package with
      | none => simp [hchanged, find?, hasPackage, hpackage]
      | some t =>
        by_cases hname : (s.nameOf k).simpleName = simpleName <;>
          simp [hchanged, hname, find?, hasPackage, hpackage, Package.find?_file]
    · simp [hchanged]
  | eraseWithin changed erased =>
    simp only [Step.apply, Step.place?, Step.filed?, Step.drops, find?_modify, Option.some.injEq,
      Prod.mk.injEq]
    by_cases hchanged : changed = package
    · cases hpackage : ps.package? package with
      | none => simp [hchanged, find?, hpackage]
      | some t =>
        by_cases hname : erased = simpleName <;>
          simp [hchanged, hname, find?, hpackage, Package.find?_erase]
    · simp [hchanged]
  | dropWithin changed r =>
    simp only [Step.apply, Step.place?, Step.drops, find?_modify]
    by_cases hchanged : changed = package
    · cases hpackage : ps.package? package with
      | none => simp [hchanged, find?, hpackage]
      | some t =>
        simp [hchanged, find?, hpackage, Package.find?_dropFrom, Option.filter_eq_some_iff]
    · simp [hchanged]

-- ═══════════════════════════════════════════════════════════════════════
-- The names of the packages
-- ═══════════════════════════════════════════════════════════════════════

theorem WellNamed.name_packageOrNew (hps : ps.WellNamed) (package : String) :
    (ps.packageOrNew package).name = package := by
  unfold packageOrNew
  cases hpackage : ps.package? package with
  | none => rfl
  | some t => exact hps hpackage

theorem WellNamed.ensure (hps : ps.WellNamed) (made : String) : (ps.ensure made).WellNamed := by
  intro package t ht
  rw [package?_ensure] at ht
  split at ht
  · exact Option.some.inj ht ▸ hps.name_packageOrNew package
  · exact hps ht

theorem WellNamed.file (hps : ps.WellNamed) (s : Store) (filed : String) (h : Handle) :
    (ps.file s filed h).WellNamed := by
  intro package t ht
  rw [package?_file] at ht
  split at ht
  · exact Option.some.inj ht ▸ hps.name_packageOrNew package
  · exact hps ht

/-- A change within a package that leaves it its name. -/
theorem WellNamed.modify (hps : ps.WellNamed) (changed : String) (f : Package → Package)
    (hf : ∀ t, (f t).name = t.name) : (ps.modify changed f).WellNamed := by
  intro package t ht
  rw [package?_modify] at ht
  split at ht
  · obtain ⟨old, hold, rfl⟩ := Option.map_eq_some_iff.1 ht
    rw [hf, hps hold]
  · exact hps ht

theorem WellNamed.dropFrom (hps : ps.WellNamed) (s : Store) (r : Resource) :
    (ps.dropFrom s r).WellNamed := by
  intro package t ht
  rw [package?_dropFrom] at ht
  obtain ⟨old, hold, rfl⟩ := Option.map_eq_some_iff.1 ht
  have hname : old.name = package := hps hold
  exact hname

theorem WellNamed.apply (hps : ps.WellNamed) (e : Step) : (e.apply ps).WellNamed := by
  obtain ⟨s, operation⟩ := e
  cases operation with
  | ensure made => exact hps.ensure made
  | declare h => exact hps.file s _ h
  | file filed h => exact hps.file s filed h
  | dropFrom r => exact hps.dropFrom s r
  | fileWithin changed h => exact hps.modify changed (fun t => t.file s h) fun _ => rfl
  | eraseWithin changed erased => exact hps.modify changed (fun t => t.erase erased) fun _ => rfl
  | dropWithin changed r => exact hps.modify changed (fun t => t.dropFrom s r) fun _ => rfl

-- ═══════════════════════════════════════════════════════════════════════
-- All steps
-- ═══════════════════════════════════════════════════════════════════════

theorem ofLog_concat (log : List Step) (e : Step) : ofLog (log ++ [e]) = e.apply (ofLog log) := by
  rw [ofLog, List.foldl_append]
  rfl

/-- A package is there once a step has made it. -/
theorem hasPackage_ofLog_iff :
    (ofLog log).hasPackage package = true ↔ ∃ e ∈ log, e.made? = some package := by
  induction log using List.reverseRecOn with
  | nil => simp [ofLog, hasPackage, package?, empty]
  | append_singleton log e ih =>
    rw [ofLog_concat, hasPackage_apply, ih]
    simp only [List.mem_append, List.mem_singleton, or_and_right, exists_or, exists_eq_left]

/-- One more step in the log: what it files stands in the place that it sets, and what
    stands elsewhere goes on standing there, unless the step drops it. -/
theorem stands_concat :
    Stands (log ++ [e]) package simpleName h ↔
      if e.place? = some (package, simpleName) then
        e.filed? = some h ∧ ∃ maker ∈ log ++ [e], maker.made? = some package
      else Stands log package simpleName h ∧ e.drops package h = false := by
  constructor
  · rintro ⟨before, f, after, hlog, hmade, hplace, hfiled, hafter⟩
    -- The filing is the last step itself, or the last step comes after it.
    rcases List.eq_nil_or_concat after with rfl | ⟨between, last, rfl⟩
    · obtain ⟨rfl, heq⟩ := List.append_inj' hlog rfl
      obtain rfl := List.singleton_inj.1 heq
      rw [if_pos hplace]
      exact ⟨hfiled, hmade⟩
    · rw [List.concat_eq_append, ← List.cons_append, ← List.append_assoc] at hlog
      obtain ⟨rfl, heq⟩ := List.append_inj' hlog rfl
      obtain rfl := List.singleton_inj.1 heq
      rw [List.concat_eq_append] at hafter
      obtain ⟨hother, hkept⟩ := hafter e (by simp)
      rw [if_neg hother]
      exact ⟨⟨before, f, between, rfl, hmade, hplace, hfiled,
        fun later hlater => hafter later (by simp [hlater])⟩, hkept⟩
  · split
    · next hplace =>
      rintro ⟨hfiled, hmade⟩
      exact ⟨log, e, [], rfl, hmade, hplace, hfiled, fun later hlater => by cases hlater⟩
    · next hplace =>
      rintro ⟨⟨before, f, after, rfl, hmade, hplace', hfiled, hafter⟩, hkept⟩
      refine ⟨before, f, after ++ [e], by simp, hmade, hplace', hfiled, fun later hlater => ?_⟩
      rcases List.mem_append.1 hlater with hlater | hlater
      · exact hafter later hlater
      · obtain rfl := List.mem_singleton.1 hlater
        exact ⟨hplace, hkept⟩

/-- What is found in a place is what the log has there. -/
theorem find?_ofLog_iff :
    (ofLog log).find? package simpleName = some h ↔ Stands log package simpleName h := by
  -- The latest step counts most, so the log is taken apart at its end.
  induction log using List.reverseRecOn generalizing h with
  | nil =>
    refine iff_of_false (by simp [ofLog]) ?_
    rintro ⟨before, e, after, hlog, -⟩
    exact absurd hlog.symm (by simp)
  | append_singleton log e ih =>
    rw [ofLog_concat, find?_apply_iff, stands_concat, ih, hasPackage_ofLog_iff]
    simp only [List.mem_append, List.mem_singleton, or_and_right, exists_or, exists_eq_left]

theorem wellNamed_ofLog (log : List Step) : (ofLog log).WellNamed := by
  induction log using List.reverseRecOn with
  | nil =>
    intro package t ht
    simp [ofLog, package?, empty] at ht
  | append_singleton log e ih => exact ofLog_concat log e ▸ ih.apply e

-- ═══════════════════════════════════════════════════════════════════════
-- How many declarations are dropped
-- ═══════════════════════════════════════════════════════════════════════

/-- The places within a package whose declaration came from the resource. -/
def placesWithin (s : Store) (r : Resource) (entry : String × Package) : List (String × String) :=
  (entry.2.types.toList.filter fun e => (s.get e.2).isFrom r).map fun e => (entry.1, e.1)

theorem mem_placesWithin_iff {entry : String × Package} :
    (package, simpleName) ∈ placesWithin s r entry ↔
      entry.1 = package ∧ ∃ h, entry.2.find? simpleName = some h ∧ (s.get h).isFrom r = true := by
  simp only [placesWithin, List.mem_map, List.mem_filter, Prod.mk.injEq, Prod.exists,
    Table.mem_toList_iff, Package.find?]
  constructor
  · rintro ⟨k, h, ⟨hfound, hfrom⟩, rfl, rfl⟩
    exact ⟨rfl, h, hfound, hfrom⟩
  · rintro ⟨rfl, h, hfound, hfrom⟩
    exact ⟨simpleName, h, ⟨hfound, hfrom⟩, rfl, rfl⟩

theorem length_placesWithin (entry : String × Package) :
    (placesWithin s r entry).length = entry.2.countFrom s r :=
  List.length_map _

theorem nodup_placesWithin (entry : String × Package) : (placesWithin s r entry).Nodup := by
  refine List.pairwise_map.2 (List.Pairwise.filter _ ?_)
  refine entry.2.types.entries.distinct_keys_toList.imp ?_
  intro a b hne heq
  exact hne (by rw [(Prod.mk.inj heq).2, compare_self])

/-- The places whose declaration came from the resource. -/
def placesFrom (ps : Packages) (s : Store) (r : Resource) : List (String × String) :=
  ps.toList.flatMap (placesWithin s r)

theorem mem_placesFrom_iff :
    (package, simpleName) ∈ ps.placesFrom s r ↔
      ∃ h, ps.find? package simpleName = some h ∧ (s.get h).isFrom r = true := by
  simp only [placesFrom, List.mem_flatMap, mem_placesWithin_iff, Prod.exists, mem_toList_iff]
  constructor
  · rintro ⟨_, t, ht, rfl, h, hfound, hfrom⟩
    exact ⟨h, Option.bind_eq_some_iff.2 ⟨t, ht, hfound⟩, hfrom⟩
  · rintro ⟨h, hfound, hfrom⟩
    obtain ⟨t, ht, hfound⟩ := Option.bind_eq_some_iff.1 hfound
    exact ⟨package, t, ht, rfl, h, hfound, hfrom⟩

theorem nodup_placesFrom (ps : Packages) : (ps.placesFrom s r).Nodup := by
  refine List.nodup_flatMap.2 ⟨fun entry _ => nodup_placesWithin entry, ?_⟩
  refine ps.tables.distinct_keys_toList.imp ?_
  rintro a b hne ⟨package, simpleName⟩ ha hb
  have heq : a.1 = b.1 := (mem_placesWithin_iff.1 ha).1.trans (mem_placesWithin_iff.1 hb).1.symm
  exact hne (by rw [heq, compare_self])

theorem length_placesFrom (ps : Packages) : (ps.placesFrom s r).length = ps.countFrom s r := by
  rw [placesFrom, List.length_flatMap, List.sum_eq_foldr, List.foldr_map, countFrom_eq_foldr]
  simp only [length_placesWithin]

theorem counts_zero {holds : String → String → Prop}
    (hnot : ∀ package simpleName, ¬holds package simpleName) : Counts holds 0 :=
  ⟨[], List.nodup_nil, rfl,
    fun package simpleName => iff_of_false List.not_mem_nil (hnot package simpleName)⟩

theorem counts_countFrom (ps : Packages) (s : Store) (r : Resource) :
    Counts (fun package simpleName =>
      ∃ h, ps.find? package simpleName = some h ∧ (s.get h).isFrom r = true) (ps.countFrom s r) :=
  ⟨ps.placesFrom s r, nodup_placesFrom ps, length_placesFrom ps,
    fun _ _ => mem_placesFrom_iff⟩

theorem counts_countWithin (s : Store) (r : Resource) (ht : ps.package? package = some t) :
    Counts (fun other simpleName =>
      ∃ h, ps.find? other simpleName = some h ∧ package = other ∧ (s.get h).isFrom r = true)
        (t.countFrom s r) := by
  refine ⟨placesWithin s r (package, t), nodup_placesWithin _, length_placesWithin _, ?_⟩
  intro other simpleName
  rw [mem_placesWithin_iff]
  constructor
  · rintro ⟨rfl, h, hfound, hfrom⟩
    exact ⟨h, Option.bind_eq_some_iff.2 ⟨t, ht, hfound⟩, rfl, hfrom⟩
  · rintro ⟨h, hfound, rfl, hfrom⟩
    rw [find?, ht] at hfound
    exact ⟨rfl, h, hfound, hfrom⟩

/-- A step reports how many declarations it drops. -/
theorem counts_reported (ps : Packages) (e : Step) :
    Counts (fun package simpleName =>
      ∃ h, ps.find? package simpleName = some h ∧ e.drops package h = true) (e.reported ps) := by
  obtain ⟨s, operation⟩ := e
  cases operation with
  | dropFrom r => exact counts_countFrom ps s r
  | dropWithin within r =>
    simp only [Step.drops, Bool.and_eq_true, decide_eq_true_eq, Step.reported]
    cases hpackage : ps.package? within with
    | none =>
      refine counts_zero ?_
      rintro package simpleName ⟨h, hfound, rfl, -⟩
      simp [find?, hpackage] at hfound
    | some t => exact counts_countWithin s r hpackage
  | _ => exact counts_zero (by simp [Step.drops])

-- ═══════════════════════════════════════════════════════════════════════
-- Everything together
-- ═══════════════════════════════════════════════════════════════════════

theorem Step.place?_filed (hfiled : e.filed? = some h)
    (hplace : e.place? = some (package, simpleName)) :
    (e.store.nameOf h).simpleName = simpleName := by
  obtain ⟨s, operation⟩ := e
  cases operation <;>
    simp_all [Step.filed?, Step.place?]

/-- What stands in a place is kept under its simple name. -/
theorem Stands.simpleName_eq (hstands : Stands log package simpleName h)
    (hname : ∀ e ∈ log, e.filed? = some h → s.nameOf h = e.store.nameOf h) :
    (s.nameOf h).simpleName = simpleName := by
  obtain ⟨before, e, after, rfl, -, hplace, hfiled, -⟩ := hstands
  rw [hname e (by simp) hfiled]
  exact Step.place?_filed hfiled hplace

theorem Step.drops_eq_false (hresource : e.resource? = none) : e.drops package h = false := by
  obtain ⟨s, operation⟩ := e
  cases operation <;> simp_all [Step.resource?, Step.drops]

theorem Step.place?_eq_none (hresource : e.resource?.isSome = true) : e.place? = none := by
  obtain ⟨s, operation⟩ := e
  cases operation <;> simp_all [Step.resource?, Step.place?]

/-- A step that drops no resource leaves every place that it does not set. -/
theorem find?_apply_of_ne (hresource : e.resource? = none)
    (hplace : e.place? ≠ some (package, simpleName)) :
    (e.apply ps).find? package simpleName = ps.find? package simpleName := by
  ext h
  rw [find?_apply_iff, if_neg hplace, Step.drops_eq_false hresource]
  simp

/-- A name is looked up in the place where its declaration is filed. -/
theorem lookup_declare (ps : Packages) (s : Store) (h : Handle) :
    (ps.declare s h).lookup (s.nameOf h) = some h := by
  rw [lookup, declare, find?_file, if_pos ⟨rfl, rfl⟩]

/-- However the packages came about, they hold what the log says. -/
theorem follows_ofLog (log : List Step) : (ofLog log).Follows log where
  found package simpleName h := find?_ofLog_iff
  named := wellNamed_ofLog log
  keyed package simpleName h hfound s hname := (find?_ofLog_iff.1 hfound).simpleName_eq hname
  others e hresource package simpleName hplace := find?_apply_of_ne hresource hplace
  dropped e hresource package simpleName h := by
    rw [find?_apply_iff, if_neg (by simp [Step.place?_eq_none hresource])]
  counted e := counts_reported (ofLog log) e
  looked w s h hpackages := by rw [Hierarchy.lookup, hpackages, lookup_declare]

/-- Two names share a place, and the second one takes it. What came from the resource was in
    two places, and was dropped from one of them. -/
theorem follows_ofLog_homonyms :
    let s := [Declaration.declared ⟨".X"⟩, .declared ⟨"X"⟩,
      { Declaration.declared ⟨"p.A"⟩ with resource := some ⟨"r"⟩ }].foldl
        (fun s d => (s.alloc d).2) Store.empty
    let ps := ofLog [⟨s, .declare ⟨0⟩⟩, ⟨s, .file "q" ⟨2⟩⟩, ⟨s, .declare ⟨2⟩⟩, ⟨s, .declare ⟨1⟩⟩,
      ⟨s, .dropWithin "q" ⟨"r"⟩⟩]
    ps.find? "" "X" = some ⟨1⟩ ∧ (s.nameOf ⟨1⟩).simpleName = "X" ∧
      (Step.apply ps ⟨s, .eraseWithin "p" "A"⟩).find? "" "X" = some ⟨1⟩ ∧
      (ps.dropFrom s ⟨"r"⟩).find? "" "X" = some ⟨1⟩ ∧
      ps.countFrom s ⟨"r"⟩ = 1 ∧
      Counts (fun package simpleName =>
        ∃ h, ps.find? package simpleName = some h ∧ (s.get h).isFrom ⟨"r"⟩ = true) 1 ∧
      ∀ w : Hierarchy, w.builtins = .empty → w.packages = ps.declare s ⟨0⟩ →
        w.lookup ⟨".X"⟩ = some ⟨0⟩ := by
  intro s ps
  have hps : ps.Follows _ := follows_ofLog _
  have hfound : ps.find? "" "X" = some ⟨1⟩ := by
    refine (hps.found "" "X" ⟨1⟩).2 ⟨[⟨s, .declare ⟨0⟩⟩, ⟨s, .file "q" ⟨2⟩⟩, ⟨s, .declare ⟨2⟩⟩],
      ⟨s, .declare ⟨1⟩⟩, [⟨s, .dropWithin "q" ⟨"r"⟩⟩], rfl, ?_, by decide, rfl, ?_⟩
    · exact ⟨⟨s, .declare ⟨1⟩⟩, by simp, by decide⟩
    · simp only [List.forall_mem_singleton]
      exact ⟨by decide, by decide⟩
  have hcount : ps.countFrom s ⟨"r"⟩ = 1 := by decide +kernel
  refine ⟨hfound, hps.keyed "" "X" ⟨1⟩ hfound s (by simp), ?_, ?_, hcount, ?_, ?_⟩
  · exact (hps.others ⟨s, .eraseWithin "p" "A"⟩ rfl "" "X" (by decide)).trans hfound
  · exact (hps.dropped ⟨s, .dropFrom ⟨"r"⟩⟩ rfl "" "X" ⟨1⟩).2 ⟨hfound, by decide⟩
  · exact hcount ▸ hps.counted ⟨s, .dropFrom ⟨"r"⟩⟩
  · intro w hbuiltins hpackages
    have hname : s.nameOf ⟨0⟩ = ⟨".X"⟩ := by decide
    rw [← hname, hps.looked w s ⟨0⟩ hpackages, hbuiltins]
    rfl

end Packages

end FactTypes
