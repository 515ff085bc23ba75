import FactTypes.Declaration.Vocabulary

/-!
# Settings that are inherited

A setting remembers whether it was written on the declaration itself or came
from an ancestor. What is written stands against every ancestor; what came from
an ancestor gives way to the next one, and is never passed on.
-/

namespace FactTypes

variable {α : Type}

/-- The value of a setting and how it was obtained. -/
inductive Setting (α : Type) where
  | unset
  | inherited (value : α)
  | explicit (value : α)
deriving DecidableEq

namespace Setting

def explicit? : Setting α → Option α
  | .explicit value => some value
  | _ => none

def isExplicit (s : Setting α) : Bool :=
  s.explicit?.isSome

def value? : Setting α → Option α
  | .unset => none
  | .inherited value => some value
  | .explicit value => some value

def valueOr (s : Setting α) (fallback : α) : α :=
  s.value?.getD fallback

/-- Whether a setting takes the value of an ancestor: it is not explicit
    itself, and the ancestor is. -/
def takesFrom (s ancestor : Setting α) : Bool :=
  !s.isExplicit && ancestor.isExplicit

/-- The setting after an ancestor has been consulted. -/
def inherit : Setting α → Setting α → Setting α
  | .explicit value, _ => .explicit value
  | _, .explicit value => .inherited value
  | s, _ => s

theorem explicit?_eq_some_iff {s : Setting α} {value : α} :
    s.explicit? = some value ↔ s = .explicit value := by
  cases s <;> simp [explicit?]

@[simp] theorem inherit_explicit (value : α) (ancestor : Setting α) :
    (Setting.explicit value).inherit ancestor = .explicit value := rfl

/-- An explicit setting stands; any other takes the explicit value of the
    ancestor, and stays as it is when there is none. -/
theorem inherit_eq (s ancestor : Setting α) :
    s.inherit ancestor =
      if s.isExplicit then s
      else match ancestor.explicit? with
        | some value => .inherited value
        | none => s := by
  cases s <;> cases ancestor <;> rfl

/-- Inheriting neither makes nor unmakes an explicit setting. -/
@[simp] theorem explicit?_inherit (s ancestor : Setting α) :
    (s.inherit ancestor).explicit? = s.explicit? := by
  cases s <;> cases ancestor <;> rfl

/-- An ancestor is taken from exactly when the setting then is inherited from
    it. -/
theorem takesFrom_iff (s ancestor : Setting α) :
    s.takesFrom ancestor = true ↔
      s.isExplicit = false ∧ ∃ value, ancestor = .explicit value := by
  cases s <;> cases ancestor <;> simp [takesFrom, isExplicit, explicit?]

end Setting

/-- The settings of a declaration that are inherited. -/
structure Settings where
  role : Setting Role := .unset
  format : Setting Format := .unset
  typesafe : Setting Bool := .unset
deriving DecidableEq

namespace Settings

def inherit (s ancestor : Settings) : Settings where
  role := s.role.inherit ancestor.role
  format := s.format.inherit ancestor.format
  typesafe := s.typesafe.inherit ancestor.typesafe

@[simp] theorem role_inherit (s ancestor : Settings) :
    (s.inherit ancestor).role = s.role.inherit ancestor.role := rfl

@[simp] theorem format_inherit (s ancestor : Settings) :
    (s.inherit ancestor).format = s.format.inherit ancestor.format := rfl

@[simp] theorem typesafe_inherit (s ancestor : Settings) :
    (s.inherit ancestor).typesafe = s.typesafe.inherit ancestor.typesafe := rfl

/-- The role in force; a plain fact unless set. -/
def effectiveRole (s : Settings) : Role :=
  s.role.valueOr .fact

/-- The format in force; a plain host object unless set. -/
def effectiveFormat (s : Settings) : Format :=
  s.format.valueOr .pojo

/-- Whether the type is typesafe; it is unless set otherwise. -/
def effectiveTypesafe (s : Settings) : Bool :=
  s.typesafe.valueOr true

end Settings

end FactTypes
