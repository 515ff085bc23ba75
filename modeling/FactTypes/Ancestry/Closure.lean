import FactTypes.Declaration.Store

/-! The declarations that a type inherits from, in the order in which they were
found, each once. The subject itself comes first. -/

namespace FactTypes

/-- A subject and the ancestors found so far, in the order of their finding. -/
structure Closure where
  subject : Handle
  ancestors : List Handle := []
deriving DecidableEq

namespace Closure

def new (subject : Handle) : Closure :=
  { subject }

def members (c : Closure) : List Handle :=
  c.subject :: c.ancestors

/-- The ancestors, the last found first, and then the subject. -/
def farthestFirst (c : Closure) : List Handle :=
  c.members.reverse

def size (c : Closure) : Nat :=
  c.members.length

/-- Adds an ancestor behind the others; nothing if it is a member already. -/
def insert? (c : Closure) (h : Handle) : Option Closure :=
  if h ∈ c.members then none else some { c with ancestors := c.ancestors ++ [h] }

def insert (c : Closure) (h : Handle) : Closure :=
  (c.insert? h).getD c

/-- Reversed, the subject comes last. -/
theorem farthestFirst_eq (c : Closure) : c.farthestFirst = c.ancestors.reverse ++ [c.subject] :=
  List.reverse_cons

/-- A handle is refused exactly when it is a member. -/
theorem insert?_eq_none_iff {c : Closure} {h : Handle} :
    c.insert? h = none ↔ h ∈ c.members := by
  unfold insert?
  split <;> simp_all

theorem members_of_insert? {c d : Closure} {h : Handle} (hd : c.insert? h = some d) :
    d.members = c.members ++ [h] := by
  unfold insert? at hd
  split at hd
  · cases hd
  · obtain rfl := Option.some.inj hd
    simp [members]

/-- An ancestor goes behind the other members, unless it is one of them. -/
theorem members_insert (c : Closure) (h : Handle) :
    (c.insert h).members = if h ∈ c.members then c.members else c.members ++ [h] := by
  unfold insert
  split
  · next hmem => rw [insert?_eq_none_iff.2 hmem, Option.getD_none]
  · next hnot =>
    cases hd : c.insert? h with
    | none => exact absurd (insert?_eq_none_iff.1 hd) hnot
    | some d => exact members_of_insert? hd

@[simp] theorem mem_members_insert {c : Closure} {h k : Handle} :
    k ∈ (c.insert h).members ↔ k ∈ c.members ∨ k = h := by
  rw [members_insert]
  split
  · next hmem => exact ⟨Or.inl, fun hk => hk.elim id fun e => e ▸ hmem⟩
  · simp

end Closure

end FactTypes
