import FactTypes.Proofs.Ancestry.Members
import FactTypes.Session.Resolve

/-!
# Settling a declaration

Settling writes one declaration and reads others, but all that it reads of them
is what was written there by hand, and no settling ever changes that. So what a
declaration holds once it is settled does not depend on which of its ancestors
were settled before it.
-/

namespace FactTypes

namespace Settings

/-- The values that were written on the declaration itself. -/
def authored (s : Settings) : Option Role × Option Format × Option Bool :=
  (s.role.explicit?, s.format.explicit?, s.typesafe.explicit?)

/-- Consults several ancestors, the last of the list first. -/
def inheritAll (s : Settings) (sources : List Settings) : Settings :=
  sources.foldr (fun source s => s.inherit source) s

variable {s a b : Settings}

theorem authored_inherit : (s.inherit a).authored = s.authored := by
  simp [authored]

theorem authored_inheritAll (sources : List Settings) :
    (s.inheritAll sources).authored = s.authored := by
  induction sources with
  | nil => rfl
  | cons source rest ih => exact authored_inherit.trans ih

/-- Nothing but what was written by hand is passed on. -/
theorem inherit_congr (h : a.authored = b.authored) : s.inherit a = s.inherit b := by
  obtain ⟨hrole, hrest⟩ := Prod.mk.inj h
  obtain ⟨hformat, htypesafe⟩ := Prod.mk.inj hrest
  simp only [inherit, Setting.inherit_eq, hrole, hformat, htypesafe]

theorem inheritAll_congr {α : Type} {f g : α → Settings} {as : List α}
    (h : ∀ a ∈ as, (f a).authored = (g a).authored) :
    s.inheritAll (as.map f) = s.inheritAll (as.map g) := by
  induction as with
  | nil => rfl
  | cons a rest ih =>
    obtain ⟨hfirst, hrest⟩ := List.forall_mem_cons.1 h
    have hsame : s.inheritAll (rest.map f) = s.inheritAll (rest.map g) := ih hrest
    show (s.inheritAll (rest.map f)).inherit (f a) = (s.inheritAll (rest.map g)).inherit (g a)
    rw [hsame, inherit_congr hfirst]

end Settings

namespace Declaration

/-- Whether two declarations agree on what no edit changes: whose type it is and
    where it came from. -/
structure SameOrigin (d e : Declaration) : Prop where
  name : e.name = d.name
  kind : e.kind = d.kind
  nature : e.nature = d.nature
  typeClass : e.typeClass = d.typeClass
  resource : e.resource = d.resource

/-- Whether a declaration may have turned into another one by being settled:
    besides its origin, what was written on it by hand is the same. -/
structure Becomes (d e : Declaration) : Prop extends d.SameOrigin e where
  reactivity : e.reactivity = d.reactivity
  authored : e.settings.authored = d.settings.authored

variable {d e f : Declaration}

theorem SameOrigin.refl (d : Declaration) : d.SameOrigin d :=
  ⟨rfl, rfl, rfl, rfl, rfl⟩

theorem SameOrigin.trans (h : d.SameOrigin e) (k : e.SameOrigin f) : d.SameOrigin f :=
  ⟨k.name.trans h.name, k.kind.trans h.kind, k.nature.trans h.nature,
    k.typeClass.trans h.typeClass, k.resource.trans h.resource⟩

theorem SameOrigin.mayRegister_eq (h : d.SameOrigin e) (package : String) :
    e.mayRegister package = d.mayRegister package := by
  rw [mayRegister, mayRegister, h.nature, h.typeClass]

/-- A declaration that is derived from a host type has its name, its resource and
    the type itself behind it. -/
theorem sameOrigin_ofHostType (policy : ReactivityPolicy) (c : HostType) :
    { discovered c.name with resource := c.resource : Declaration }.SameOrigin
      (ofHostType policy c) := by
  rw [ofHostType]
  split <;> exact ⟨rfl, rfl, rfl, rfl, rfl⟩

/-- It starts from the role marker of the type, and nothing else is set on it. -/
theorem settings_ofHostType (policy : ReactivityPolicy) (c : HostType) :
    (ofHostType policy c).settings = { role := c.markers.role.elim .unset .explicit } := by
  unfold ofHostType
  cases c.markers.role <;> rfl

theorem authored_ofHostType (policy : ReactivityPolicy) (c : HostType) :
    (ofHostType policy c).settings.authored = (c.markers.role, none, none) := by
  rw [settings_ofHostType]
  cases c.markers.role <;> rfl

theorem Becomes.refl (d : Declaration) : d.Becomes d :=
  ⟨.refl d, rfl, rfl⟩

theorem Becomes.trans (h : d.Becomes e) (k : e.Becomes f) : d.Becomes f :=
  ⟨h.toSameOrigin.trans k.toSameOrigin, k.reactivity.trans h.reactivity,
    k.authored.trans h.authored⟩

end Declaration

namespace Session

/-- The settings that a subject inherits from, the nearest first. -/
def sources (s : Session) (p : ClassPath) (c : HostType) (h : Handle) : List Settings :=
  ((s.hierarchy p).closure c h).ancestors.map fun ancestor => (s.store.get ancestor).settings

/-- What a declaration holds once it is settled for a host type. -/
def settled (s : Session) (p : ClassPath) (c : HostType) (h : Handle) : Declaration :=
  let d := (s.store.get h).layOut p c
  if s.builtins.holds h then d
  else { d with settings := d.settings.inheritAll (s.sources p c h) }

variable {s t : Session} {p q : ClassPath} {c : HostType} {h k : Handle}

/-- Inheriting from ancestors in turn is inheriting from their settings. -/
theorem foldr_inherit_eq (d : Declaration) (ancestors : List Handle) (f : Handle → Settings) :
    ancestors.foldr (fun ancestor d => d.inherit (f ancestor)) d =
      { d with settings := d.settings.inheritAll (ancestors.map f) } := by
  induction ancestors with
  | nil => rfl
  | cons ancestor rest ih =>
    rw [List.foldr_cons, ih]
    rfl

/-- Settling writes one declaration, and all the others stay. -/
theorem get_settle (s : Session) (p : ClassPath) (c : HostType) (h k : Handle) :
    (s.settle p c h).session.store.get k = if k = h then s.settled p c h else s.store.get k := by
  -- the layout is written before the ancestors are read, but it leaves their settings
  have hsettings : ∀ k, ((s.store.update h fun d => d.layOut p c).get k).settings =
      (s.store.get k).settings := by
    intro k
    rw [Store.get_update]
    split
    · next heq => rw [heq]; rfl
    · rfl
  have hsubject : ((s.hierarchy p).closure c h).subject = h := Hierarchy.subject_closure _ c h
  simp only [settle, settled, sources]
  split
  · exact Store.get_update s.store h k _
  · rw [Store.inheritAlong, hsubject, Store.get_update]
    split
    · rw [foldr_inherit_eq, Store.get_update, if_pos rfl]
      simp only [hsettings]
    · next hne => rw [Store.get_update, if_neg hne]

theorem next_settle (s : Session) (p : ClassPath) (c : HostType) (h : Handle) :
    (s.settle p c h).session.store.next = s.store.next := by
  simp only [settle]
  split <;> rfl

/-- Settling lays out and inherits; whatever else a declaration holds stays. -/
theorem becomes_settled (s : Session) (p : ClassPath) (c : HostType) (h : Handle) :
    (s.store.get h).Becomes (s.settled p c h) := by
  rw [settled]
  split
  · exact ⟨⟨rfl, rfl, rfl, rfl, rfl⟩, rfl, rfl⟩
  · exact ⟨⟨rfl, rfl, rfl, rfl, rfl⟩, rfl, Settings.authored_inheritAll _⟩

theorem becomes_settle (s : Session) (p : ClassPath) (c : HostType) (h k : Handle) :
    (s.store.get k).Becomes ((s.settle p c h).session.store.get k) := by
  rw [get_settle]
  split
  · next heq => exact heq ▸ s.becomes_settled p c h
  · exact .refl _

/-- What a declaration holds once it is settled depends on its layout, on its ancestors,
    and on what was written on those by hand. -/
theorem settled_congr (hlayOut : (t.store.get k).layOut q c = (s.store.get h).layOut p c)
    (hholds : t.builtins.holds k = s.builtins.holds h)
    (hancestors : ((t.hierarchy q).closure c k).ancestors = ((s.hierarchy p).closure c h).ancestors)
    (hauthored : ∀ a ∈ ((s.hierarchy p).closure c h).ancestors,
      (t.store.get a).settings.authored = (s.store.get a).settings.authored) :
    t.settled q c k = s.settled p c h := by
  have hsources : ∀ d : Settings,
      d.inheritAll (t.sources q c k) = d.inheritAll (s.sources p c h) := by
    intro d
    rw [sources, hancestors]
    exact Settings.inheritAll_congr hauthored
  rw [settled, settled, hlayOut, hholds, hsources]

end Session

end FactTypes
