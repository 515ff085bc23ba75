import Std.Data.ExtTreeMap
import FactTypes.Host.Basic

/-!
# Class paths

The host types of a compilation by name. Names may dangle and the hierarchy may
run in circles, so what walks along it keeps the names that it has met.
-/

namespace FactTypes

open Std

structure ClassPath where
  entries : ExtTreeMap TypeName HostType
  /-- A type stands under its own name. -/
  name_eq : ∀ {n : TypeName} {c : HostType}, entries[n]? = some c → c.name = n

namespace ClassPath

def empty : ClassPath where
  entries := ∅
  name_eq h := by simp at h

/-- Adds a type in place of the one of its name. -/
def add (p : ClassPath) (c : HostType) : ClassPath where
  entries := p.entries.insert c.name c
  name_eq {n d} h := by
    rw [ExtTreeMap.getElem?_insert] at h
    split at h
    · next hn =>
      obtain rfl := Option.some.inj h
      exact LawfulEqOrd.eq_of_compare hn
    · exact p.name_eq h

/-- The class path of the given types; of two with one name the later stands. -/
def ofList (cs : List HostType) : ClassPath :=
  cs.foldl add empty

def find? (p : ClassPath) (n : TypeName) : Option HostType :=
  p.entries[n]?

def size (p : ClassPath) : Nat :=
  p.entries.size

def isEmpty (p : ClassPath) : Bool :=
  p.entries.isEmpty

def names (p : ClassPath) : List TypeName :=
  p.entries.keys

theorem name_eq_of_find? {p : ClassPath} {n : TypeName} {c : HostType}
    (h : p.find? n = some c) : c.name = n :=
  p.name_eq h

@[simp] theorem find?_empty (n : TypeName) : empty.find? n = none := by
  simp [find?, empty]

/-- A type is found under its name, and the other names keep theirs. -/
theorem find?_add (p : ClassPath) (c : HostType) (n : TypeName) :
    (p.add c).find? n = if c.name = n then some c else p.find? n := by
  simp [find?, add, ExtTreeMap.getElem?_insert]

theorem mem_names_iff {p : ClassPath} {n : TypeName} :
    n ∈ p.names ↔ ∃ c, p.find? n = some c := by
  rw [names, ExtTreeMap.mem_keys, ExtTreeMap.mem_iff_isSome_getElem?, Option.isSome_iff_exists]
  rfl

/-- How many known names are not in a list. A walk that never meets a name
    twice has at most so many steps before it. -/
def unmet (p : ClassPath) (met : List TypeName) : Nat :=
  (p.names.filter fun n => n ∉ met).length

/-- Meeting a known name for the first time leaves fewer of them. -/
theorem unmet_cons_lt {p : ClassPath} {met : List TypeName} {n : TypeName} {c : HostType}
    (hknown : p.find? n = some c) (hfresh : n ∉ met) : p.unmet (n :: met) < p.unmet met := by
  have hmem : n ∈ p.names.filter fun m => m ∉ met := by
    simp [hfresh, mem_names_iff, hknown]
  have hsub : (p.names.filter fun m => m ∉ n :: met) =
      (p.names.filter fun m => m ∉ met).filter fun m => m ≠ n := by
    rw [List.filter_filter]
    apply List.filter_congr
    intro m _
    simp
  unfold unmet
  rw [hsub]
  exact List.length_filter_lt_length_iff_exists.2 ⟨n, hmem, by simp⟩

/-- The chain of known types that starts at a name and goes from superclass to
    superclass. It ends before a name that was met or that is not known. -/
def chainFrom (p : ClassPath) (met : List TypeName) : Option TypeName → List HostType
  | none => []
  | some n =>
    if _hmet : n ∈ met then []
    else
      match _hfound : p.find? n with
      | none => []
      | some c => c :: p.chainFrom (n :: met) c.effectiveSuperclass
termination_by p.unmet met
decreasing_by exact unmet_cons_lt _hfound _hmet

/-- The superclasses of a type, nearest first. The root is not among them, and
    neither is the type itself. -/
def superclasses (p : ClassPath) (c : HostType) : List HostType :=
  p.chainFrom [c.name] c.effectiveSuperclass

/-- The fields of a type, its own first and then those of each superclass,
    nearest first. A name may occur more than once. -/
def flattenFields (p : ClassPath) (c : HostType) : List HostField :=
  c.fields ++ (p.superclasses c).flatMap HostType.fields

@[simp] theorem chainFrom_none (p : ClassPath) (met : List TypeName) :
    p.chainFrom met none = [] := by
  rw [chainFrom]

theorem chainFrom_some (p : ClassPath) (met : List TypeName) (n : TypeName) :
    p.chainFrom met (some n) =
      if n ∈ met then []
      else match p.find? n with
        | none => []
        | some c => c :: p.chainFrom (n :: met) c.effectiveSuperclass := by
  rw [chainFrom]
  split
  · rfl
  · split <;> simp_all

/-- A known name that was not met is followed by the chain of its superclass. -/
theorem chainFrom_of_known {p : ClassPath} {met : List TypeName} {n : TypeName} {c : HostType}
    (hnew : n ∉ met) (hfound : p.find? n = some c) :
    p.chainFrom met (some n) = c :: p.chainFrom (n :: met) c.effectiveSuperclass := by
  rw [chainFrom_some, if_neg hnew, hfound]

/-- The chain ends with a superclass that has none itself. -/
theorem superclasses_of_last {p : ClassPath} {c d : HostType} {n : TypeName}
    (hsuper : c.effectiveSuperclass = some n) (hne : n ≠ c.name) (hfound : p.find? n = some d)
    (hlast : d.effectiveSuperclass = none) : p.superclasses c = [d] := by
  have hnew : n ∉ [c.name] := by simpa using hne
  rw [superclasses, hsuper, chainFrom_of_known hnew hfound, hlast, chainFrom_none]

/-- Without a superclass, a type has its own fields. -/
theorem flattenFields_of_bare {p : ClassPath} {c : HostType}
    (hbare : c.effectiveSuperclass = none) : p.flattenFields c = c.fields := by
  rw [flattenFields, superclasses, hbare, chainFrom_none, List.flatMap_nil, List.append_nil]

/-- With one superclass, it has those of the superclass behind its own. -/
theorem flattenFields_of_last {p : ClassPath} {c d : HostType} {n : TypeName}
    (hsuper : c.effectiveSuperclass = some n) (hne : n ≠ c.name) (hfound : p.find? n = some d)
    (hlast : d.effectiveSuperclass = none) : p.flattenFields c = c.fields ++ d.fields := by
  rw [flattenFields, superclasses_of_last hsuper hne hfound hlast, List.flatMap_cons,
    List.flatMap_nil, List.append_nil]

end ClassPath

end FactTypes
