import FactTypes.Ancestry.Walk
import FactTypes.Policy

/-!
# Sessions

The state of a compilation: the declarations, the engine's own table, the
declarations that were resolved so far, and the packages in which declarations
are filed.
-/

namespace FactTypes

/-- The state of a compilation. -/
structure Session where
  policy : ReactivityPolicy
  store : Store
  builtins : Builtins
  /-- The resolved declarations, by the name of the host type. -/
  cache : Table TypeName
  packages : Packages
deriving DecidableEq

namespace Session

def start (policy : ReactivityPolicy) : Session :=
  let seeded := Builtins.seed .empty
  { policy
    store := seeded.1
    builtins := seeded.2
    cache := .empty
    packages := .empty }

def cached (s : Session) (n : TypeName) : Option Handle :=
  s.cache.find? n

/-- The tables that a walk over the ancestors consults. -/
def hierarchy (s : Session) (p : ClassPath) : Hierarchy where
  classes := p
  builtins := s.builtins
  packages := s.packages

/-- The declaration found for a name: the engine's own, or else the one that is
    filed where the name says. -/
def lookup (s : Session) (n : TypeName) : Option Handle :=
  (s.builtins.find? n).or (s.packages.lookup n)

@[simp] theorem lookup_hierarchy (s : Session) (p : ClassPath) (n : TypeName) :
    (s.hierarchy p).lookup n = s.lookup n := rfl

/-- A new declaration, which is not filed anywhere. -/
def author (s : Session) (d : Declaration) : Handle × Session :=
  let (h, store) := s.store.alloc d
  (h, { s with store })

def edit (s : Session) (h : Handle) (f : Declaration → Declaration) : Session :=
  { s with store := s.store.update h f }

def declare (s : Session) (h : Handle) : Session :=
  { s with packages := s.packages.declare s.store h }

def file (s : Session) (package : String) (h : Handle) : Session :=
  { s with packages := s.packages.file s.store package h }

/-- Forgets every resolved and every filed declaration that came from the
    resource. The declarations themselves stay with whoever holds them. -/
def invalidate (s : Session) (r : Resource) : Session :=
  { s with
    cache := s.cache.dropFrom s.store r
    packages := s.packages.dropFrom s.store r }

/-- How many resolved declarations came from the resource. -/
def countFrom (s : Session) (r : Resource) : Nat :=
  s.cache.countFrom s.store r

/-- Exactly the resolved declarations from elsewhere stay. -/
theorem cached_invalidate (s : Session) (r : Resource) (n : TypeName) :
    (s.invalidate r).cached n = (s.cached n).filter fun h => !(s.store.get h).isFrom r :=
  Table.find?_dropFrom s.cache s.store r n

/-- Exactly the filed declarations from elsewhere stay. -/
theorem filed_invalidate (s : Session) (r : Resource) (package simpleName : String) :
    (s.invalidate r).packages.find? package simpleName =
      (s.packages.find? package simpleName).filter fun h => !(s.store.get h).isFrom r :=
  Packages.find?_dropFrom s.packages s.store r package simpleName

variable {s : Session} {r : Resource} {n : TypeName} {package simpleName : String} {h : Handle}

theorem cached_of_cached_invalidate (hcached : (s.invalidate r).cached n = some h) :
    s.cached n = some h := by
  rw [cached_invalidate, Option.filter_eq_some_iff] at hcached
  exact hcached.1

theorem filed_of_filed_invalidate
    (hfiled : (s.invalidate r).packages.find? package simpleName = some h) :
    s.packages.find? package simpleName = some h := by
  rw [filed_invalidate, Option.filter_eq_some_iff] at hfiled
  exact hfiled.1

@[simp] theorem cached_start (policy : ReactivityPolicy) (n : TypeName) :
    (start policy).cached n = none :=
  Table.find?_empty n

@[simp] theorem filed_start (policy : ReactivityPolicy) (package simpleName : String) :
    (start policy).packages.find? package simpleName = none :=
  Packages.find?_empty package simpleName

end Session

end FactTypes
