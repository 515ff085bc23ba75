import Std.Data.ExtTreeMap
import FactTypes.Declaration.Basic

/-!
# The store of declarations

Declarations are shared: the cache, the package tables and the engine's own
table name them by handle, and an update is seen through every one of them.
Handles are issued in sequence and never again, so two declarations with equal
contents are still told apart. A handle that was not issued reads as a blank
declaration: reading is total, and so is writing.
-/

namespace FactTypes

open Std

/-- The identity of a declaration. -/
structure Handle where
  index : Nat
deriving DecidableEq

/-- What each handle holds. -/
structure Store where
  /-- The index of the handle that is issued next. -/
  next : Nat := 0
  contents : ExtTreeMap Nat Declaration := ∅
deriving DecidableEq

namespace Store

def empty : Store := {}

/-- What a handle reads as that was not issued. -/
def blank : Declaration := .declared ⟨""⟩

def get (s : Store) (h : Handle) : Declaration :=
  s.contents.getD h.index blank

/-- Whether a handle was issued. -/
def Issued (s : Store) (h : Handle) : Prop :=
  h.index < s.next

instance (s : Store) (h : Handle) : Decidable (s.Issued h) :=
  inferInstanceAs (Decidable (h.index < s.next))

def put (s : Store) (h : Handle) (d : Declaration) : Store :=
  { s with contents := s.contents.insert h.index d }

def update (s : Store) (h : Handle) (f : Declaration → Declaration) : Store :=
  s.put h (f (s.get h))

/-- Issues a new handle for a declaration. -/
def alloc (s : Store) (d : Declaration) : Handle × Store :=
  (⟨s.next⟩, { s with next := s.next + 1, contents := s.contents.insert s.next d })

def nameOf (s : Store) (h : Handle) : TypeName :=
  (s.get h).name

def inspect (s : Store) (h : Handle) : String :=
  "DeclRef(" ++ (s.nameOf h).text ++ ")"

/-- A written declaration is read back, and the other handles keep theirs. -/
theorem get_put (s : Store) (h k : Handle) (d : Declaration) :
    (s.put h d).get k = if k = h then d else s.get k := by
  obtain ⟨i⟩ := h
  obtain ⟨j⟩ := k
  simp only [get, put, ExtTreeMap.getD_insert, Std.compare_eq_iff_eq, Handle.mk.injEq]
  by_cases hij : i = j
  · rw [if_pos hij, if_pos hij.symm]
  · rw [if_neg hij, if_neg (Ne.symm hij)]

@[simp] theorem get_put_self (s : Store) (h : Handle) (d : Declaration) :
    (s.put h d).get h = d := by
  rw [get_put, if_pos rfl]

theorem get_put_of_ne (s : Store) {h k : Handle} (d : Declaration) (hne : k ≠ h) :
    (s.put h d).get k = s.get k := by
  rw [get_put, if_neg hne]

theorem get_update (s : Store) (h k : Handle) (f : Declaration → Declaration) :
    (s.update h f).get k = if k = h then f (s.get h) else s.get k :=
  get_put s h k _

@[simp] theorem next_put (s : Store) (h : Handle) (d : Declaration) :
    (s.put h d).next = s.next := rfl

@[simp] theorem next_update (s : Store) (h : Handle) (f : Declaration → Declaration) :
    (s.update h f).next = s.next := rfl

theorem put_put (s : Store) (h : Handle) (d e : Declaration) :
    (s.put h d).put h e = s.put h e := by
  unfold put
  congr 1
  apply ExtTreeMap.ext_getElem?
  intro k
  simp only [ExtTreeMap.getElem?_insert]
  split <;> rfl

@[simp] theorem next_alloc (s : Store) (d : Declaration) :
    (s.alloc d).2.next = s.next + 1 := rfl

/-- A new handle holds its declaration, and the other handles keep theirs. -/
theorem get_alloc (s : Store) (d : Declaration) (k : Handle) :
    (s.alloc d).2.get k = if k = (s.alloc d).1 then d else s.get k := by
  obtain ⟨j⟩ := k
  simp only [get, alloc, ExtTreeMap.getD_insert, Std.compare_eq_iff_eq, Handle.mk.injEq]
  by_cases hj : s.next = j
  · rw [if_pos hj, if_pos hj.symm]
  · rw [if_neg hj, if_neg (Ne.symm hj)]

/-- A new handle was not issued before. -/
theorem not_issued_alloc (s : Store) (d : Declaration) : ¬s.Issued (s.alloc d).1 :=
  Nat.lt_irrefl _

/-- A new handle is issued by the call that returns it. -/
theorem issued_alloc (s : Store) (d : Declaration) : (s.alloc d).2.Issued (s.alloc d).1 :=
  Nat.lt_succ_self _

end Store

end FactTypes
