import FactTypes.Ancestry.Closure
import FactTypes.Host.ClassPath
import FactTypes.Registry.Builtins
import FactTypes.Registry.Package

/-!
# The walk over the ancestors

How the ancestors of a type are found. Every interface that the type names
itself is explored; then its superclasses are, nearest first. Exploring a name
adds the declaration found for it and goes on to the interfaces that it names
in turn. An exploration that meets a declaration for the second time stops
there, and what would have come after it is skipped: the remaining interfaces
of the same exploration, and the remaining superclasses of the ascent.

An exploration answers with the closure as it stands at its end: `ok` when it
ran to its end, `error` when it met a declaration for the second time, so that
the sequence of a run stops there by itself. The names under exploration are
passed down as the path. A name on the path is not explored again, which is why
the walk ends however the interfaces refer to each other: every level leaves
fewer known names that are not on the path.
-/

namespace FactTypes

/-- What the walk over the ancestors consults. -/
structure Hierarchy where
  classes : ClassPath
  builtins : Builtins
  packages : Packages

namespace Hierarchy

variable (w : Hierarchy)

/-- The declaration found for a name: the engine's own, or else the one that is
    filed where the name says. -/
def lookup (n : TypeName) : Option Handle :=
  (w.builtins.find? n).or (w.packages.lookup n)

/-- Adds the declaration found for a name. A declaration that is a member
    already stops the exploration. -/
def enter (c : Closure) (n : TypeName) : Except Closure Closure :=
  match w.lookup n with
  | none => .ok c
  | some h =>
    match c.insert? h with
    | some grown => .ok grown
    | none => .error c

/-- Adds the declaration that is filed for an interface, if it is not a member
    yet. The engine's own declarations are not consulted. -/
def gather (c : Closure) (n : TypeName) : Closure :=
  match w.packages.lookup n with
  | some h => c.insert h
  | none => c

/-- Explores one name below the names of the path. After its own declaration
    come those filed for all its interfaces, and only then is each interface
    explored. -/
def explore (path : List TypeName) (c : Closure) (n : TypeName) : Except Closure Closure :=
  if _hpath : n ∈ path then .ok c
  else
    match w.enter c n with
    | .error stopped => .error stopped
    | .ok entered =>
      match _hfound : w.classes.find? n with
      | none => .ok entered
      | some cls =>
        cls.interfaces.foldlM (explore (n :: path)) (cls.interfaces.foldl w.gather entered)
termination_by w.classes.unmet path
decreasing_by exact ClassPath.unmet_cons_lt _hfound _hpath

/-- The closure at the end of an exploration, whether or not it was stopped. -/
def reached : Except Closure Closure → Closure
  | .ok c => c
  | .error c => c

/-- The closure after the interfaces that a type names itself. None of them is
    skipped. -/
def exploreOwn (cls : HostType) (c : Closure) : Closure :=
  cls.interfaces.foldl (fun c n => reached (w.explore [] c n)) c

/-- The closure after the superclasses of a type, up to the first whose
    exploration is stopped. -/
def ascend (cls : HostType) (c : Closure) : Closure :=
  reached (((w.classes.superclasses cls).map HostType.name).foldlM (w.explore []) c)

/-- The closure of a type whose declaration is the subject. -/
def closure (cls : HostType) (subject : Handle) : Closure :=
  w.ascend cls (w.exploreOwn cls (.new subject))

variable {w} {path : List TypeName} {c : Closure} {n : TypeName}

/-- A name on the path is passed over. -/
theorem explore_of_mem_path (h : n ∈ path) : w.explore path c n = .ok c := by
  rw [explore, dif_pos h]

/-- A second meeting stops the exploration. -/
theorem explore_of_enter_error {stopped : Closure} (h : n ∉ path)
    (henter : w.enter c n = .error stopped) : w.explore path c n = .error stopped := by
  rw [explore, dif_neg h, henter]

/-- Nothing lies behind a name that is not known. -/
theorem explore_of_unknown {entered : Closure} (h : n ∉ path)
    (henter : w.enter c n = .ok entered) (hfound : w.classes.find? n = none) :
    w.explore path c n = .ok entered := by
  rw [explore, dif_neg h, henter]
  simp only
  split
  · rfl
  · simp_all

/-- Behind a known name lie its interfaces. -/
theorem explore_of_known {entered : Closure} {cls : HostType} (h : n ∉ path)
    (henter : w.enter c n = .ok entered) (hfound : w.classes.find? n = some cls) :
    w.explore path c n =
      cls.interfaces.foldlM (w.explore (n :: path))
        (cls.interfaces.foldl w.gather entered) := by
  rw [explore, dif_neg h, henter]
  simp only
  split
  · simp_all
  · next found hsome =>
    rw [hfound] at hsome
    rw [Option.some.inj hsome]

end Hierarchy

end FactTypes
