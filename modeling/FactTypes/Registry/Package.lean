import FactTypes.Registry.Table

/-!
# Packages

The declarations of a compilation as they are filed: by package, and within a
package by simple name. A declaration is usually filed under the package of its
own name, but it may be filed under any other; its key is its simple name
wherever it lies.
-/

namespace FactTypes

open Std

-- ═══════════════════════════════════════════════════════════════════════
-- One package
-- ═══════════════════════════════════════════════════════════════════════

/-- The declarations filed under one package, by simple name. -/
structure Package where
  name : String
  types : Table String := .empty
deriving DecidableEq

namespace Package

/-- Files a declaration under its simple name. -/
def file (t : Package) (s : Store) (h : Handle) : Package :=
  { t with types := t.types.insert (s.nameOf h).simpleName h }

def find? (t : Package) (simpleName : String) : Option Handle :=
  t.types.find? simpleName

def erase (t : Package) (simpleName : String) : Package :=
  { t with types := t.types.erase simpleName }

/-- The package without the declarations that came from the resource. -/
def dropFrom (t : Package) (s : Store) (r : Resource) : Package :=
  { t with types := t.types.dropFrom s r }

/-- How many of its declarations came from the resource. -/
def countFrom (t : Package) (s : Store) (r : Resource) : Nat :=
  t.types.countFrom s r

def size (t : Package) : Nat :=
  t.types.size

def isEmpty (t : Package) : Bool :=
  t.types.isEmpty

theorem find?_file (t : Package) (s : Store) (h : Handle) (simpleName : String) :
    (t.file s h).find? simpleName =
      if (s.nameOf h).simpleName = simpleName then some h else t.find? simpleName :=
  Table.find?_insert t.types _ simpleName h

theorem find?_erase (t : Package) (erased simpleName : String) :
    (t.erase erased).find? simpleName =
      if erased = simpleName then none else t.find? simpleName :=
  Table.find?_erase t.types erased simpleName

theorem find?_dropFrom (t : Package) (s : Store) (r : Resource) (simpleName : String) :
    (t.dropFrom s r).find? simpleName =
      (t.find? simpleName).filter fun h => !(s.get h).isFrom r :=
  Table.find?_dropFrom t.types s r simpleName

end Package

-- ═══════════════════════════════════════════════════════════════════════
-- All packages
-- ═══════════════════════════════════════════════════════════════════════

/-- The packages of a compilation, by name. A package stays when its last
    declaration goes. -/
structure Packages where
  tables : ExtTreeMap String Package := ∅
deriving DecidableEq

namespace Packages

def empty : Packages := {}

def package? (ps : Packages) (package : String) : Option Package :=
  ps.tables[package]?

def hasPackage (ps : Packages) (package : String) : Bool :=
  (ps.package? package).isSome

/-- The package of a name, empty when there is none. -/
def packageOrNew (ps : Packages) (package : String) : Package :=
  (ps.package? package).getD { name := package }

/-- Makes sure that there is a package of the name. -/
def ensure (ps : Packages) (package : String) : Packages :=
  ⟨ps.tables.insert package (ps.packageOrNew package)⟩

def modify (ps : Packages) (package : String) (f : Package → Package) : Packages :=
  ⟨ps.tables.modify package f⟩

def find? (ps : Packages) (package simpleName : String) : Option Handle :=
  (ps.package? package).bind fun t => t.find? simpleName

/-- The declaration filed where a type name says. -/
def lookup (ps : Packages) (n : TypeName) : Option Handle :=
  ps.find? n.package n.simpleName

/-- Files a declaration under the given package, which is made when it is
    missing. -/
def file (ps : Packages) (s : Store) (package : String) (h : Handle) : Packages :=
  ⟨ps.tables.insert package ((ps.packageOrNew package).file s h)⟩

/-- Files a declaration under the package of its own name. -/
def declare (ps : Packages) (s : Store) (h : Handle) : Packages :=
  ps.file s (s.nameOf h).package h

/-- The packages without the declarations that came from the resource. -/
def dropFrom (ps : Packages) (s : Store) (r : Resource) : Packages :=
  ⟨ps.tables.map fun _ t => t.dropFrom s r⟩

/-- How many filed declarations came from the resource. One that is filed twice
    counts twice. -/
def countFrom (ps : Packages) (s : Store) (r : Resource) : Nat :=
  ps.tables.values.foldr (fun t count => t.countFrom s r + count) 0

def size (ps : Packages) : Nat :=
  ps.tables.size

def isEmpty (ps : Packages) : Bool :=
  ps.tables.isEmpty

/-- The packages by ascending name. -/
def toList (ps : Packages) : List (String × Package) :=
  ps.tables.toList

-- ═══════════════════════════════════════════════════════════════════════
-- Look-up after each operation
-- ═══════════════════════════════════════════════════════════════════════

@[simp] theorem find?_empty (package simpleName : String) :
    empty.find? package simpleName = none := by
  simp [find?, package?, empty]

@[simp] theorem find?_packageOrNew (ps : Packages) (package simpleName : String) :
    (ps.packageOrNew package).find? simpleName = ps.find? package simpleName := by
  unfold packageOrNew find?
  cases ps.package? package <;> simp [Package.find?]

theorem package?_ensure (ps : Packages) (made package : String) :
    (ps.ensure made).package? package =
      if made = package then some (ps.packageOrNew package) else ps.package? package := by
  simp only [package?, ensure, ExtTreeMap.getElem?_insert, Std.compare_eq_iff_eq]
  split
  · next heq => rw [heq]
  · rfl

theorem package?_file (ps : Packages) (s : Store) (filed : String) (h : Handle)
    (package : String) :
    (ps.file s filed h).package? package =
      if filed = package then some ((ps.packageOrNew package).file s h)
      else ps.package? package := by
  simp only [package?, file, ExtTreeMap.getElem?_insert, Std.compare_eq_iff_eq]
  split
  · next heq => rw [heq]
  · rfl

theorem package?_modify (ps : Packages) (changed : String) (f : Package → Package)
    (package : String) :
    (ps.modify changed f).package? package =
      if changed = package then (ps.package? package).map f else ps.package? package := by
  simp only [package?, modify, ExtTreeMap.getElem?_modify, Std.compare_eq_iff_eq]
  split
  · next heq => rw [heq]
  · rfl

theorem package?_dropFrom (ps : Packages) (s : Store) (r : Resource) (package : String) :
    (ps.dropFrom s r).package? package = (ps.package? package).map fun t => t.dropFrom s r := by
  simp [package?, dropFrom, ExtTreeMap.getElem?_map]

/-- A change within one package is seen there, if there is such a package, and nowhere
    else. -/
theorem find?_modify (ps : Packages) (changed : String) (f : Package → Package)
    (package simpleName : String) :
    (ps.modify changed f).find? package simpleName =
      if changed = package then (ps.package? package).bind fun t => (f t).find? simpleName
      else ps.find? package simpleName := by
  rw [find?, package?_modify]
  split
  · rw [Option.bind_map]
    rfl
  · rfl

/-- Making sure of a package files nothing. -/
@[simp] theorem find?_ensure (ps : Packages) (made package simpleName : String) :
    (ps.ensure made).find? package simpleName = ps.find? package simpleName := by
  by_cases h : made = package
  · subst h
    rw [← find?_packageOrNew ps]
    simp [find?, package?, ensure]
  · simp [find?, package?, ensure, ExtTreeMap.getElem?_insert, h]

/-- A filed declaration is found under its package and simple name, and every
    other place keeps its declaration. -/
theorem find?_file (ps : Packages) (s : Store) (filed : String) (h : Handle)
    (package simpleName : String) :
    (ps.file s filed h).find? package simpleName =
      if filed = package ∧ (s.nameOf h).simpleName = simpleName then some h
      else ps.find? package simpleName := by
  by_cases hp : filed = package
  · subst hp
    rw [← find?_packageOrNew ps]
    simp [find?, package?, file, Package.file, Package.find?, Table.find?_insert]
  · simp [find?, package?, file, ExtTreeMap.getElem?_insert, hp]

/-- Exactly the declarations from elsewhere stay filed. -/
theorem find?_dropFrom (ps : Packages) (s : Store) (r : Resource)
    (package simpleName : String) :
    (ps.dropFrom s r).find? package simpleName =
      (ps.find? package simpleName).filter fun h => !(s.get h).isFrom r := by
  unfold find? package? dropFrom
  rw [ExtTreeMap.getElem?_map]
  cases ps.tables[package]? with
  | none => rfl
  | some t => exact Table.find?_dropFrom t.types s r simpleName

-- ═══════════════════════════════════════════════════════════════════════
-- All packages in a row
-- ═══════════════════════════════════════════════════════════════════════

theorem mem_toList_iff {ps : Packages} {package : String} {t : Package} :
    (package, t) ∈ ps.toList ↔ ps.package? package = some t :=
  ExtTreeMap.mem_toList_iff_getElem?_eq_some

theorem values_tables (ps : Packages) : ps.tables.values = ps.toList.map Prod.snd := by
  have hvalues : ps.tables.foldr (fun _ t tables => t :: tables) [] = ps.tables.values := by
    obtain ⟨⟨m⟩⟩ := ps
    induction m using ExtDTreeMap.inductionOn with
    | mk m => rfl
  rw [← hvalues, ExtTreeMap.foldr_eq_foldr_toList, List.map_eq_foldr]
  rfl

theorem countFrom_eq_foldr (ps : Packages) (s : Store) (r : Resource) :
    ps.countFrom s r = ps.toList.foldr (fun entry count => entry.2.countFrom s r + count) 0 := by
  rw [countFrom, values_tables, List.foldr_map]

end Packages

end FactTypes
