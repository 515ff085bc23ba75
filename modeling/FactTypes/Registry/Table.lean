import Std.Data.ExtTreeMap
import FactTypes.Declaration.Store

/-! Handles by key. Every register of a compilation is such a table or is made of
them; they differ only in what the keys are. -/

namespace FactTypes

open Std

variable {κ : Type} [Ord κ] [TransOrd κ]

structure Table (κ : Type) [Ord κ] [TransOrd κ] where
  entries : ExtTreeMap κ Handle := ∅

instance [LawfulEqOrd κ] : DecidableEq (Table κ) := fun t u =>
  decidable_of_iff (t.entries = u.entries) (by cases t; cases u; simp)

namespace Table

def empty : Table κ := {}

def find? (t : Table κ) (k : κ) : Option Handle :=
  t.entries[k]?

def contains (t : Table κ) (k : κ) : Bool :=
  (t.find? k).isSome

/-- Enters a handle under a key, in place of the one that was there. -/
def insert (t : Table κ) (k : κ) (h : Handle) : Table κ :=
  ⟨t.entries.insert k h⟩

def erase (t : Table κ) (k : κ) : Table κ :=
  ⟨t.entries.erase k⟩

def toList (t : Table κ) : List (κ × Handle) :=
  t.entries.toList

/-- The table without the declarations that came from the resource. -/
def dropFrom (t : Table κ) (s : Store) (r : Resource) : Table κ :=
  ⟨t.entries.filter fun _ h => !(s.get h).isFrom r⟩

/-- How many entries hold a declaration that came from the resource. -/
def countFrom (t : Table κ) (s : Store) (r : Resource) : Nat :=
  (t.toList.filter fun entry => (s.get entry.2).isFrom r).length

def keys (t : Table κ) : List κ :=
  t.entries.keys

/-- Whether a handle is entered under some key. -/
def holds (t : Table κ) (h : Handle) : Bool :=
  t.toList.any fun entry => entry.2 = h

def size (t : Table κ) : Nat :=
  t.entries.size

def isEmpty (t : Table κ) : Bool :=
  t.entries.isEmpty

@[ext] theorem ext [LawfulEqOrd κ] {t u : Table κ} (h : ∀ k, t.find? k = u.find? k) : t = u := by
  cases t
  cases u
  congr
  exact ExtTreeMap.ext_getElem? h

@[simp] theorem find?_empty (k : κ) : (empty : Table κ).find? k = none := by
  simp [find?, empty]

/-- An entry is found under its key, and the other keys keep theirs. -/
theorem find?_insert [LawfulEqOrd κ] [DecidableEq κ] (t : Table κ) (k l : κ) (h : Handle) :
    (t.insert k h).find? l = if k = l then some h else t.find? l := by
  simp only [find?, insert, ExtTreeMap.getElem?_insert, Std.compare_eq_iff_eq]

/-- An entry that is there already is not entered anew. -/
theorem insert_eq_self [LawfulEqOrd κ] [DecidableEq κ] {t : Table κ} {k : κ} {h : Handle}
    (hfound : t.find? k = some h) : t.insert k h = t := by
  apply Table.ext
  intro l
  rw [find?_insert]
  split
  · next heq => exact heq ▸ hfound.symm
  · rfl

/-- Nothing is found under an erased key, and the other keys keep theirs. -/
theorem find?_erase [LawfulEqOrd κ] [DecidableEq κ] (t : Table κ) (k l : κ) :
    (t.erase k).find? l = if k = l then none else t.find? l := by
  simp only [find?, erase, ExtTreeMap.getElem?_erase, Std.compare_eq_iff_eq]

/-- Exactly the declarations from elsewhere stay. -/
theorem find?_dropFrom (t : Table κ) (s : Store) (r : Resource) (k : κ) :
    (t.dropFrom s r).find? k = (t.find? k).filter fun h => !(s.get h).isFrom r := by
  simp [find?, dropFrom, ExtTreeMap.getElem?_filter]

theorem mem_toList_iff [LawfulEqOrd κ] {t : Table κ} {k : κ} {h : Handle} :
    (k, h) ∈ t.toList ↔ t.find? k = some h :=
  ExtTreeMap.mem_toList_iff_getElem?_eq_some

/-- A handle is held exactly when it is found under some key. -/
theorem holds_iff [LawfulEqOrd κ] {t : Table κ} {h : Handle} :
    t.holds h = true ↔ ∃ k, t.find? k = some h := by
  simp [holds, mem_toList_iff]

/-- What is dropped and what stays add up. -/
theorem countFrom_add_size_dropFrom (t : Table κ) (s : Store) (r : Resource) :
    t.countFrom s r + (t.dropFrom s r).size = t.size := by
  unfold countFrom size dropFrom toList
  rw [← ExtTreeMap.length_toList, ExtTreeMap.toList_filter, ← ExtTreeMap.length_toList]
  rw [← List.length_append]
  exact (List.filter_append_perm _ _).length_eq

end Table

end FactTypes
